import BeIndexer.Roaring.Index

/-!
# The scan

A scan intersects what the containers answer, in the order in which a map is visited. It stops early
when nothing is left, and it returns when a container fails; which of the two comes first may depend
on the order.
-/

namespace BeIndexer.Roaring

open Calls

namespace IvtScanner

variable {s s' : IvtScanner} {q : Assignments} {rest : List (Sigma fun _ : BEField => BEContainer)}

def answer (q : Assignments) (e : Sigma fun _ : BEField => BEContainer) : Go PostingList :=
  e.2.retrieve (assigned q e.1) ∅

/-- The id is in every answer that there is. -/
def Common (q : Assignments) (es : List (Sigma fun _ : BEField => BEContainer)) (id : ConjunctionID) : Prop :=
  ∀ e ∈ es, ∀ pl, answer q e = .ok pl → id ∈ pl

theorem common_cons {e : Sigma fun _ : BEField => BEContainer} {pl : PostingList} {id : ConjunctionID}
    (answered : answer q e = .ok pl) : Common q (e :: rest) id ↔ id ∈ pl ∧ Common q rest id := by
  simp only [Common, List.forall_mem_cons, answered, Except.ok.injEq, forall_eq']

/-! ### One container -/

/-- A scanner that has seen a container has ended exactly if nothing is left. -/
structure Under (s : IvtScanner) : Prop where
  inited : s.inited = true
  ended : s.ended = decide (s.conjIDResults = ∅)

theorem mergeFieldResult_new (indexer : IvtBEIndexer) (pl : PostingList) :
    ((newScanner indexer).mergeFieldResult pl).Under ∧
      ((newScanner indexer).mergeFieldResult pl).conjIDResults = pl := by
  have first : (newScanner indexer).mergeFieldResult pl = ⟨true, decide (pl = ∅), indexer, pl⟩ := by
    simp [mergeFieldResult, newScanner, hasEnded]
  rw [first]
  exact ⟨⟨rfl, rfl⟩, rfl⟩

theorem mergeFieldResult_inited (inited : s.inited = true) (pl : PostingList) :
    (s.mergeFieldResult pl).Under ∧ (s.mergeFieldResult pl).conjIDResults = s.conjIDResults ∩ pl := by
  by_cases none : s.conjIDResults = ∅
  · have ends : s.hasEnded = true := by simp [hasEnded, inited, none]
    simp only [mergeFieldResult, ends, if_true]
    exact ⟨⟨inited, rfl⟩, by simp [none]⟩
  · have goes : s.hasEnded = false := by simp [hasEnded, none]
    simp only [mergeFieldResult, goes, inited, if_true]
    exact ⟨⟨rfl, rfl⟩, rfl⟩

theorem mergeFieldResult_under (under : s.Under) (pl : PostingList) :
    (s.mergeFieldResult pl).Under ∧ (s.mergeFieldResult pl).conjIDResults = s.conjIDResults ∩ pl :=
  mergeFieldResult_inited under.inited pl

/-! ### The loop -/

theorem retrieveFrom_step {e : Sigma fun _ : BEField => BEContainer} {pl : PostingList} (goes : s.ended = false)
    (answered : answer q e = .ok pl) : s.retrieveFrom q (e :: rest) = (s.mergeFieldResult pl).retrieveFrom q rest := by
  obtain ⟨field, can⟩ := e
  simp only [answer] at answered
  rw [retrieveFrom, goes, answered]
  rfl

theorem retrieveFrom_error {e : Sigma fun _ : BEField => BEContainer} {err : GoError} (goes : s.ended = false)
    (failed : answer q e = .error (.err err)) : s.retrieveFrom q (e :: rest) = .ok (s, .error err) := by
  obtain ⟨field, can⟩ := e
  simp only [answer] at failed
  rw [retrieveFrom, goes, failed]
  rfl

theorem retrieveFrom_fault {e : Sigma fun _ : BEField => BEContainer} {fault : Fault} (goes : s.ended = false)
    (faulted : answer q e = .error fault) (notErr : ∀ err, fault ≠ .err err) :
    s.retrieveFrom q (e :: rest) = .error fault := by
  obtain ⟨field, can⟩ := e
  simp only [answer] at faulted
  rw [retrieveFrom, goes, faulted]
  cases fault with
  | err err => exact absurd rfl (notErr err)
  | panic _ => rfl
  | hang => rfl

theorem retrieveFrom_ended (ended : s.ended = true) : s.retrieveFrom q rest = .ok (s, .ok ()) := by
  cases rest with
  | nil => rfl
  | cons e rest => rw [retrieveFrom, ended]; rfl

theorem retrieveFrom_answered {e : Sigma fun _ : BEField => BEContainer} (goes : s.ended = false)
    (run : s.retrieveFrom q (e :: rest) = .ok (s', .ok ())) :
    ∃ pl, answer q e = .ok pl ∧ (s.mergeFieldResult pl).retrieveFrom q rest = .ok (s', .ok ()) := by
  cases answered : answer q e with
  | ok pl =>
    rw [retrieveFrom_step goes answered] at run
    exact ⟨pl, rfl, run⟩
  | error fault =>
    cases fault with
    | err err =>
      rw [retrieveFrom_error goes answered] at run
      cases run
    | panic err =>
      rw [retrieveFrom_fault goes answered (fun _ => nofun)] at run
      cases run
    | hang =>
      rw [retrieveFrom_fault goes answered (fun _ => nofun)] at run
      cases run

/-- A scan that returns no error is left with the ids in the answers that there are, also if it ended
before it met a container that fails. -/
theorem retrieveFrom_common (under : s.Under) (run : s.retrieveFrom q rest = .ok (s', .ok ())) :
    ∀ id, id ∈ s'.conjIDResults ↔ id ∈ s.conjIDResults ∧ Common q rest id := by
  induction rest generalizing s with
  | nil =>
    obtain ⟨rfl, _⟩ := Prod.mk.inj (Except.ok.inj run)
    exact fun id => by simp [Common]
  | cons e rest ih =>
    by_cases none : s.conjIDResults = ∅
    · rw [retrieveFrom_ended (by rw [under.ended, none]; rfl)] at run
      obtain ⟨rfl, _⟩ := Prod.mk.inj (Except.ok.inj run)
      simp [none]
    · obtain ⟨pl, answered, later⟩ := retrieveFrom_answered (by simp [under.ended, none]) run
      obtain ⟨under', merged⟩ := mergeFieldResult_under under pl
      intro id
      rw [ih under' later, merged, Finset.mem_inter, common_cons answered, and_assoc]

theorem retrieveFrom_all (under : s.Under) (all : ∀ e ∈ rest, ∃ pl, answer q e = .ok pl) :
    ∃ s', s.retrieveFrom q rest = .ok (s', .ok ()) ∧ s'.Under ∧
      ∀ id, id ∈ s'.conjIDResults ↔ id ∈ s.conjIDResults ∧ Common q rest id := by
  induction rest generalizing s with
  | nil => exact ⟨s, rfl, under, fun id => by simp [Common]⟩
  | cons e rest ih =>
    obtain ⟨pl, answered⟩ := all e List.mem_cons_self
    by_cases none : s.conjIDResults = ∅
    · refine ⟨s, retrieveFrom_ended (by rw [under.ended, none]; rfl), under, fun id => ?_⟩
      simp [none]
    · have goes : s.ended = false := by simp [under.ended, none]
      obtain ⟨under', merged⟩ := mergeFieldResult_under under pl
      obtain ⟨s', run, under'', ids⟩ := ih under' fun e mem => all e (List.mem_cons_of_mem _ mem)
      refine ⟨s', by rw [retrieveFrom_step goes answered, run], under'', fun id => ?_⟩
      rw [ids, merged, Finset.mem_inter, common_cons answered, and_assoc]

/-- A scanner that has seen no container yet, or has the id in every answer so far. -/
def Carries (s : IvtScanner) (id : ConjunctionID) : Prop := s = newScanner s.indexer ∨ (s.Under ∧ id ∈ s.conjIDResults)

theorem Carries.goes {id : ConjunctionID} (carries : s.Carries id) : s.ended = false := by
  rcases carries with new | ⟨under, mem⟩
  · rw [new]
    rfl
  · rw [under.ended, decide_eq_false_iff_not]
    exact Finset.ne_empty_of_mem mem

theorem Carries.merge {id : ConjunctionID} {pl : PostingList} (carries : s.Carries id) (mem : id ∈ pl) :
    (s.mergeFieldResult pl).Carries id := by
  rcases carries with new | ⟨under, held⟩
  · rw [new]
    obtain ⟨under, merged⟩ := mergeFieldResult_new s.indexer pl
    exact Or.inr ⟨under, merged.symm ▸ mem⟩
  · obtain ⟨under', merged⟩ := mergeFieldResult_under under pl
    exact Or.inr ⟨under', merged.symm ▸ Finset.mem_inter.mpr ⟨held, mem⟩⟩

/-- A scan with a common id meets the failure that there is. -/
theorem retrieveFrom_fails {id : ConjunctionID} (carries : s.Carries id) (common : Common q rest id)
    (returns : ∀ e ∈ rest, Returns (answer q e))
    (fails : ∃ e ∈ rest, ∃ err, answer q e = .error (.err err)) :
    ∃ s' err, s.retrieveFrom q rest = .ok (s', .error err) := by
  induction rest generalizing s with
  | nil =>
    obtain ⟨_, absurd, _⟩ := fails
    cases absurd
  | cons e rest ih =>
    rcases returns e List.mem_cons_self with ⟨pl, answered⟩ | ⟨err, failed⟩
    · obtain ⟨here, later⟩ := (common_cons answered).mp common
      rw [retrieveFrom_step carries.goes answered]
      refine ih (carries.merge here) later (fun e mem => returns e (List.mem_cons_of_mem _ mem)) ?_
      obtain ⟨e', mem', err, failed⟩ := fails
      rcases List.mem_cons.mp mem' with rfl | later'
      · rw [answered] at failed
        cases failed
      · exact ⟨e', later', err, failed⟩
    · exact ⟨s, err, retrieveFrom_error carries.goes failed⟩

theorem retrieveFrom_append {es : List (Sigma fun _ : BEField => BEContainer)}
    (run : s.retrieveFrom q es = .ok (s', .ok ())) (ended : s'.ended = true) :
    s.retrieveFrom q (es ++ rest) = .ok (s', .ok ()) := by
  induction es generalizing s with
  | nil =>
    obtain ⟨rfl, _⟩ := Prod.mk.inj (Except.ok.inj run)
    exact retrieveFrom_ended ended
  | cons e es ih =>
    by_cases stopped : s.ended = true
    · rw [retrieveFrom_ended stopped] at run
      obtain ⟨rfl, _⟩ := Prod.mk.inj (Except.ok.inj run)
      exact retrieveFrom_ended stopped
    · rw [Bool.not_eq_true] at stopped
      obtain ⟨pl, answered, later⟩ := retrieveFrom_answered stopped run
      rw [List.cons_append, retrieveFrom_step stopped answered]
      exact ih later

/-! ### A new scanner -/

variable {indexer : IvtBEIndexer}

theorem retrieveFrom_new_all (indexer : IvtBEIndexer) (all : ∀ e ∈ rest, ∃ pl, answer q e = .ok pl) :
    ∃ s', (newScanner indexer).retrieveFrom q rest = .ok (s', .ok ()) ∧ (rest ≠ [] → s'.Under) ∧
      ∀ id, id ∈ s'.conjIDResults ↔ rest ≠ [] ∧ Common q rest id := by
  cases rest with
  | nil => exact ⟨newScanner indexer, rfl, fun some => absurd rfl some, fun id => by simp [newScanner]⟩
  | cons e rest =>
    obtain ⟨pl, answered⟩ := all e List.mem_cons_self
    obtain ⟨under, merged⟩ := mergeFieldResult_new indexer pl
    obtain ⟨s', run, under', ids⟩ := retrieveFrom_all under fun e mem => all e (List.mem_cons_of_mem _ mem)
    refine ⟨s', by rw [retrieveFrom_step rfl answered, run], fun _ => under', fun id => ?_⟩
    rw [ids, merged, common_cons answered]
    simp

/-! ### Orders -/

/-- Both calls return an error, or both return the same documents. -/
def SameOutcome (o₁ o₂ : Go (IvtScanner × Except GoError (List UInt64))) : Prop :=
  (∃ s₁ s₂ e₁ e₂, o₁ = .ok (s₁, .error e₁) ∧ o₂ = .ok (s₂, .error e₂)) ∨
    ∃ s₁ s₂ docs, o₁ = .ok (s₁, .ok docs) ∧ o₂ = .ok (s₂, .ok docs)

def docsOf (ids : PostingList) : List UInt64 := (ids.image fun id => (ConjunctionID.docID id).toUInt64).sort (· ≤ ·)

theorem Common.of_subset {es fs : List (Sigma fun _ : BEField => BEContainer)} {id : ConjunctionID}
    (subset : ∀ e ∈ es, ∀ pl, answer q e = .ok pl → e ∈ fs) (common : Common q fs id) : Common q es id :=
  fun e mem pl answered => common e (subset e mem pl answered) pl answered

theorem retrieve_new (visit : indexer.data.Visit) :
    (newScanner indexer).retrieve q visit = andThen ((newScanner indexer).retrieveFrom q visit.1)
      fun s _ => .ok (s, .ok (docsOf s.conjIDResults)) := rfl

theorem retrieve_all (visit : indexer.data.Visit) (all : ∀ e ∈ indexer.data.entries, ∃ pl, answer q e = .ok pl) :
    ∃ s', (newScanner indexer).retrieve q visit = .ok (s', .ok (docsOf s'.conjIDResults)) ∧
      ∀ id, id ∈ s'.conjIDResults ↔ indexer.data.entries ≠ [] ∧ Common q indexer.data.entries id := by
  obtain ⟨entries, perm⟩ := visit
  obtain ⟨s', run, _, ids⟩ := retrieveFrom_new_all indexer fun e mem => all e (perm.mem_iff.mp mem)
  refine ⟨s', by rw [retrieve_new, run]; rfl, fun id => ?_⟩
  have none : entries = [] ↔ indexer.data.entries = [] :=
    ⟨fun empty => List.nil_perm.mp (empty ▸ perm), fun empty => List.perm_nil.mp (empty ▸ perm)⟩
  rw [ids, ne_eq, none]
  exact and_congr_right fun _ => ⟨fun common => common.of_subset fun e mem _ _ => perm.mem_iff.mpr mem,
    fun common => common.of_subset fun e mem _ _ => perm.mem_iff.mp mem⟩

theorem retrieve_fails {id : ConjunctionID} (visit : indexer.data.Visit) (common : Common q indexer.data.entries id)
    (returns : ∀ e ∈ indexer.data.entries, Returns (answer q e))
    (fails : ∃ e ∈ indexer.data.entries, ∃ err, answer q e = .error (.err err)) :
    ∃ s' err, (newScanner indexer).retrieve q visit = .ok (s', .error err) := by
  obtain ⟨entries, perm⟩ := visit
  obtain ⟨e, mem, failed⟩ := fails
  obtain ⟨s', err, run⟩ := retrieveFrom_fails (s := newScanner indexer) (Or.inl rfl)
    (common.of_subset fun e mem _ _ => perm.mem_iff.mp mem) (fun e mem => returns e (perm.mem_iff.mp mem))
    ⟨e, perm.mem_iff.mpr mem, failed⟩
  exact ⟨s', err, by rw [retrieve_new, run]; rfl⟩

theorem returns_of_same {e : Sigma fun _ : BEField => BEContainer} (mem : e ∈ indexer.data.entries)
    (alike : ∀ visit : indexer.data.Visit,
      SameOutcome ((newScanner indexer).retrieve q visit) ((newScanner indexer).retrieve q visit)) :
    Returns (answer q e) := by
  by_contra not
  obtain ⟨fault, faulted, notErr⟩ := fault_of_not_returns not
  obtain ⟨rest, perm⟩ := GoMap.exists_visit_first mem
  have outcome := alike ⟨e :: rest, perm⟩
  rw [retrieve_new, retrieveFrom_fault rfl faulted notErr] at outcome
  rcases outcome with ⟨_, _, _, _, absurd, _⟩ | ⟨_, _, _, absurd, _⟩
  · cases absurd
  · cases absurd

/-- With the failing containers last a scan without a common id ends before it meets them. -/
theorem retrieve_ends_first (none : ¬ ∃ id, Common q indexer.data.entries id) :
    ∃ (visit : indexer.data.Visit) (s' : IvtScanner) (docs : List UInt64),
      (newScanner indexer).retrieve q visit = .ok (s', .ok docs) := by
  let fine (e : Sigma fun _ : BEField => BEContainer) : Bool := (answer q e).isOk
  have perm := List.filter_append_perm fine indexer.data.entries
  have all : ∀ e ∈ indexer.data.entries.filter fine, ∃ pl, answer q e = .ok pl := by
    intro e mem
    have isOk := (List.mem_filter.mp mem).2
    cases answered : answer q e with
    | ok pl => exact ⟨pl, rfl⟩
    | error fault => simp [fine, answered, Except.isOk, Except.toBool] at isOk
  have listed : ∀ id, Common q (indexer.data.entries.filter fine) id → Common q indexer.data.entries id := by
    intro id common
    refine common.of_subset fun e mem pl answered => List.mem_filter.mpr ⟨mem, ?_⟩
    simp [fine, answered, Except.isOk, Except.toBool]
  obtain ⟨s', run, under, ids⟩ := retrieveFrom_new_all indexer all
  have some : indexer.data.entries.filter fine ≠ [] := by
    intro empty
    exact none ⟨0, listed 0 (by rw [empty]; exact fun _ mem => absurd mem List.not_mem_nil)⟩
  have ended : s'.ended = true := by
    rw [(under some).ended, decide_eq_true_iff, Finset.eq_empty_iff_forall_notMem]
    exact fun id mem => none ⟨id, listed id ((ids id).mp mem).2⟩
  refine ⟨⟨_, perm⟩, s', docsOf s'.conjIDResults, ?_⟩
  rw [retrieve_new, retrieveFrom_append run ended]
  rfl

/-- The order of the visit does not show exactly if no container panics, and none fails or the answers of
the others have an id in common. -/
theorem retrieve_order_iff (indexer : IvtBEIndexer) (q : Assignments) :
    (∀ visit₁ visit₂ : indexer.data.Visit,
      SameOutcome ((newScanner indexer).retrieve q visit₁) ((newScanner indexer).retrieve q visit₂)) ↔
    (∀ e ∈ indexer.data.entries, Returns (answer q e)) ∧
      ((∀ e ∈ indexer.data.entries, ∃ pl, answer q e = .ok pl) ∨ ∃ id, Common q indexer.data.entries id) := by
  constructor
  · intro alike
    have returns : ∀ e ∈ indexer.data.entries, Returns (answer q e) :=
      fun e mem => returns_of_same mem fun visit => alike visit visit
    refine ⟨returns, or_iff_not_imp_right.mpr fun none e mem => ?_⟩
    rcases returns e mem with answered | ⟨err, failed⟩
    · exact answered
    · obtain ⟨rest, perm⟩ := GoMap.exists_visit_first mem
      obtain ⟨visit, s', docs, run⟩ := retrieve_ends_first none
      have outcome := alike ⟨e :: rest, perm⟩ visit
      rw [retrieve_new, retrieveFrom_error rfl failed, run] at outcome
      rcases outcome with ⟨_, _, _, _, _, absurd⟩ | ⟨_, _, _, absurd, _⟩
      · cases absurd
      · cases absurd
  · rintro ⟨returns, possible⟩ visit₁ visit₂
    by_cases all : ∀ e ∈ indexer.data.entries, ∃ pl, answer q e = .ok pl
    · obtain ⟨s₁, run₁, ids₁⟩ := retrieve_all visit₁ all
      obtain ⟨s₂, run₂, ids₂⟩ := retrieve_all visit₂ all
      have same : s₁.conjIDResults = s₂.conjIDResults := Finset.ext fun id => by rw [ids₁, ids₂]
      exact Or.inr ⟨s₁, s₂, _, run₁, same ▸ run₂⟩
    · obtain ⟨id, common⟩ := possible.resolve_left all
      have fails : ∃ e ∈ indexer.data.entries, ∃ err, answer q e = .error (.err err) := by
        push Not at all
        obtain ⟨e, mem, bad⟩ := all
        refine ⟨e, mem, (returns e mem).resolve_left ?_⟩
        rintro ⟨pl, answered⟩
        exact bad pl answered
      obtain ⟨s₁, err₁, run₁⟩ := retrieve_fails visit₁ common returns fails
      obtain ⟨s₂, err₂, run₂⟩ := retrieve_fails visit₂ common returns fails
      exact Or.inl ⟨s₁, s₂, err₁, err₂, run₁, run₂⟩

/-- A document with a condition on each of two fields. The query misses the first and has a value that
the parser of the second rejects: visited first, the first field ends the scan; otherwise there is an error. -/
theorem retrieve_order_shows :
    letI := FloatOps.noFloats
    letI := AhoMachine.naive
    let conj : Conjunction := ⟨.insert (str "b") [⟨true, .scalar (.int .int 1), .eq⟩]
      (.singleton (str "a") [⟨true, .scalar (.string (str "x")), .eq⟩])⟩
    let q : Assignments := .insert (str "b") (.scalar (.string (str "z")))
      (.singleton (str "a") (.scalar (.string (str "y"))))
    ∃ b₁ b₂ b₃ u indexer,
      (IvtBEIndexerBuilder.newIndexerBuilder StrHashParser.generator).configureField (str "a")
        ⟨none, ContainerNameDefault⟩ = .ok (b₁, .ok ()) ∧
      b₁.configureField (str "b") ⟨some (NumberParser.mk true).generator, ContainerNameDefault⟩ = .ok (b₂, .ok ()) ∧
      b₂.addDocument (fun _ => .id) ⟨1, 0, [conj]⟩ = .ok (b₃, .ok u) ∧ b₃.buildIndexer = .ok indexer ∧
      ¬ SameOutcome ((newScanner indexer).retrieve q ⟨indexer.data.entries, .refl _⟩)
        ((newScanner indexer).retrieve q ⟨indexer.data.entries.reverse, List.reverse_perm _⟩) := by
  let _ := FloatOps.noFloats
  let _ := AhoMachine.naive
  intro conj q
  let run (indexer : IvtBEIndexer) (visit : indexer.data.Visit) := (newScanner indexer).retrieve q visit
  obtain ⟨b₁, b₂, first, second, b₃, u, added, races⟩ : ∃ b₁ b₂,
      (IvtBEIndexerBuilder.newIndexerBuilder StrHashParser.generator).configureField (str "a")
        ⟨none, ContainerNameDefault⟩ = .ok (b₁, .ok ()) ∧
      b₁.configureField (str "b") ⟨some (NumberParser.mk true).generator, ContainerNameDefault⟩ = .ok (b₂, .ok ()) ∧
      ∃ b₃ u, b₂.addDocument (fun _ => .id) ⟨1, 0, [conj]⟩ = .ok (b₃, .ok u) ∧ okAnd (fun indexer =>
        finished (fun _ _ => true) (run indexer ⟨indexer.data.entries.reverse, List.reverse_perm _⟩) &&
          failed (fun _ => true) (run indexer ⟨indexer.data.entries, .refl _⟩)) b₃.buildIndexer = true :=
    ⟨_, _, rfl, rfl, finished_iff.mp (by decide +kernel)⟩
  obtain ⟨indexer, built, races⟩ := okAnd_iff.mp races
  obtain ⟨ends, fails⟩ := Bool.and_eq_true_iff.mp races
  obtain ⟨s₁, docs, run₁, _⟩ := finished_iff.mp ends
  obtain ⟨s₂, err, run₂, _⟩ := failed_iff.mp fails
  refine ⟨b₁, b₂, b₃, u, indexer, first, second, added, built, ?_⟩
  rintro (⟨_, _, _, _, _, absurd⟩ | ⟨_, _, _, absurd, _⟩)
  · cases run₁.symm.trans absurd
  · cases run₂.symm.trans absurd

end IvtScanner

end BeIndexer.Roaring
