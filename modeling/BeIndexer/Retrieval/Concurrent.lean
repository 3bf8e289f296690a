import BeIndexer.Lib.Pool
import BeIndexer.Retrieval.Collector

/-!
# Retrievals that run at once (`collectorPool`)

`Retrieve` takes its collector from a pool that all goroutines share, and puts it back when it returns. The
index is only read. However the goroutines interleave, and whichever collectors the pool hands out or
forgets, each retrieval returns what it returns alone.
-/

namespace BeIndexer

def recorder : ResultCollector (List ConjID) := ⟨fun calls _ conjID => calls ++ [conjID]⟩

theorem recorder_addAll (calls adds : List ConjID) : recorder.addAll calls adds = calls ++ adds := by
  unfold ResultCollector.addAll
  induction adds generalizing calls with
  | nil => simp
  | cons conjID adds ih =>
    rw [List.foldl_cons, ih]
    simp [recorder]

variable [FloatOps] [AhoMachine]

/-! ### One collector is as good as another -/

theorem KGroupsBEIndex.collectBelow_calls (bi : KGroupsBEIndex) (q : Assignments)
    (visits : Nat → GoMap.Visit q) (n : Nat) :
    ∃ calls r, ∀ (σ : Type) (collector : ResultCollector σ) (state : σ),
      bi.collectBelow q visits collector n state = (collector.addAll state calls, r) := by
  induction n with
  | zero => exact ⟨[], .ok (), fun _ _ _ => rfl⟩
  | succ k ih =>
    cases start : bi.initCursors (visits k).1 k with
    | error fault =>
      refine ⟨[], .error fault, fun σ collector state => ?_⟩
      rw [KGroupsBEIndex.collectBelow, start]
      rfl
    | ok cursors =>
      cases run : retrieveK cursors (max k 1) (needed_pos k) with
      | error fault =>
        refine ⟨[], .error fault, fun σ collector state => ?_⟩
        rw [KGroupsBEIndex.collectBelow, start]
        dsimp only
        rw [run]
        rfl
      | ok adds =>
        obtain ⟨calls, r, tells⟩ := ih
        refine ⟨adds ++ calls, r, fun σ collector state => ?_⟩
        rw [KGroupsBEIndex.collectBelow, start]
        dsimp only
        rw [run]
        dsimp only
        rw [tells, ResultCollector.addAll_append]

/-- A retrieval makes the same calls to every collector. -/
theorem BEIndex.retrieve_calls (idx : BEIndex) (q : Assignments) (visits : Nat → GoMap.Visit q) :
    ∃ calls r, ∀ (σ : Type) (collector : ResultCollector σ) (state : σ),
      idx.retrieveWithCollector q visits collector [] state = (collector.addAll state calls, r) := by
  cases idx with
  | kgroups bi =>
    cases sized : Assignments.size q with
    | error fault =>
      refine ⟨[], .error fault, fun σ collector state => ?_⟩
      show bi.retrieveWithCollector q visits collector [] state = _
      rw [KGroupsBEIndex.retrieveWithCollector, if_neg (by decide), sized]
      rfl
    | ok size =>
      obtain ⟨calls, r, tells⟩ := bi.collectBelow_calls q visits (min (size : Int) bi.maxK + 1).toNat
      refine ⟨calls, r, fun σ collector state => ?_⟩
      show bi.retrieveWithCollector q visits collector [] state = _
      rw [KGroupsBEIndex.retrieveWithCollector, if_neg (by decide), sized]
      exact tells σ collector state
  | compact bi =>
    cases start : bi.initCursors (visits 0).1 with
    | error fault =>
      refine ⟨[], .error fault, fun σ collector state => ?_⟩
      show bi.retrieveWithCollector q (visits 0) collector [] state = _
      rw [CompactBEIndex.retrieveWithCollector, if_neg (by decide), start]
      rfl
    | ok cursors =>
      cases run : FieldCursors.retrieveLoop cursors.sort with
      | error fault =>
        refine ⟨[], .error fault, fun σ collector state => ?_⟩
        show bi.retrieveWithCollector q (visits 0) collector [] state = _
        rw [CompactBEIndex.retrieveWithCollector, if_neg (by decide), start]
        dsimp only
        rw [run]
        rfl
      | ok adds =>
        refine ⟨adds, .ok (), fun σ collector state => ?_⟩
        show bi.retrieveWithCollector q (visits 0) collector [] state = _
        rw [CompactBEIndex.retrieveWithCollector, if_neg (by decide), start]
        dsimp only
        rw [run]

/-! ### Goroutines -/

structure Request where
  index : BEIndex
  queries : Assignments
  visits : Nat → GoMap.Visit queries

namespace Request

def alone (req : Request) : Go (List DocID) := req.index.retrieve req.queries req.visits

/-- The calls to `Add` and how `RetrieveWithCollector` ends. -/
def calls (req : Request) : List ConjID × Go Unit :=
  req.index.retrieveWithCollector req.queries req.visits recorder [] []

theorem alone_eq (req : Request) : req.alone = collected (docIDCollector.addAll ∅ req.calls.1, req.calls.2) := by
  obtain ⟨calls, r, tells⟩ := req.index.retrieve_calls req.queries req.visits
  rw [alone, BEIndex.retrieve_collected, Request.calls, tells, tells, recorder_addAll]
  rfl

end Request

inductive Phase where
  | idle
  | adding (rest : List ConjID)
  | resetting (result : Go (List DocID))
  | putting (result : Go (List DocID))

/-- A goroutine that makes its calls one after the other; a panic is recovered from between them. -/
structure Goroutine where
  todo : List Request
  results : List (Go (List DocID))
  phase : Phase

namespace Goroutine

/-- The next step of `Retrieve`: `PickCollector`, the calls to `Add`, `GetDocIDs` if there was no error, and
the deferred `PutCollector`, which resets the collector first. -/
def act (g : Goroutine) : Pool.Action Unit DocIDCollector Goroutine :=
  match g.phase, g.todo with
  | .idle, [] => .halt
  | .idle, req :: _ => .get () { g with phase := .adding req.calls.1 }
  | .adding (conjID :: rest), _ =>
    .write () (fun view => ((view ()).getD ∅).add conjID) fun _ => { g with phase := .adding rest }
  | .adding [], [] => .halt
  | .adding [], req :: _ =>
    -- a call that does not return keeps its collector
    if req.calls.2 = .error .hang then .halt
    else .read fun view => { g with phase := .resetting (collected ((view ()).getD ∅, req.calls.2)) }
  | .resetting result, _ => .write () (fun _ => ∅) fun _ => { g with phase := .putting result }
  | .putting result, _ => .put () { todo := g.todo.tail, results := g.results ++ [result], phase := .idle }

theorem act_ended {req : Request} {later : List Request} {rs : List (Go (List DocID))}
    (returns : req.calls.2 ≠ .error .hang) :
    act ⟨req :: later, rs, .adding []⟩ =
      .read fun view => ⟨req :: later, rs, .resetting (collected ((view ()).getD ∅, req.calls.2))⟩ := if_neg returns

structure Alone (requests : List Request) (g : Goroutine) (view : Pool.View Unit DocIDCollector) : Prop where
  split : ∃ done, requests = done ++ g.todo ∧ g.results = done.map Request.alone
  phase : match g.phase with
    | .idle => True
    | .adding rest => ∃ req later pre, g.todo = req :: later ∧ req.calls.1 = pre ++ rest ∧
        view () = some (docIDCollector.addAll ∅ pre)
    | .resetting result => ∃ req later, g.todo = req :: later ∧ result = req.alone ∧ (view ()).isSome = true
    | .putting result => ∃ req later, g.todo = req :: later ∧ result = req.alone ∧ view () = some ∅

theorem Alone.step {requests : List Request} {g g' : Goroutine} {view view' : Pool.View Unit DocIDCollector}
    (holds : Alone requests g view) (step : Pool.alone ∅ act (g, view) = some (g', view')) :
    Alone requests g' view' := by
  obtain ⟨⟨done, parts, results⟩, phase⟩ := holds
  have next : ∀ {h : Goroutine} {v : Pool.View Unit DocIDCollector}, Pool.alone ∅ act (g, view) = some (h, v) →
    h = g' ∧ v = view' :=
    fun moved => Prod.mk.inj (Option.some.inj (moved.symm.trans step))
  obtain ⟨todo, rs, now⟩ := g
  cases now with
  | idle =>
    cases todo with
    | nil => cases step
    | cons req later =>
      obtain ⟨rfl, rfl⟩ := next (Pool.alone_get rfl)
      exact ⟨⟨done, parts, results⟩, req, later, [], rfl, rfl, Function.update_self ..⟩
  | adding rest =>
    obtain ⟨req, later, pre, rfl, made, seen⟩ := phase
    cases rest with
    | cons conjID rest =>
      obtain ⟨rfl, rfl⟩ := next (Pool.alone_write rfl seen)
      refine ⟨⟨done, parts, results⟩, req, later, pre ++ [conjID], rfl, by simpa using made, ?_⟩
      rw [Function.update_self, seen, ResultCollector.addAll_append]
      rfl
    | nil =>
      rw [List.append_nil] at made
      by_cases hang : req.calls.2 = .error .hang
      · have does : act ⟨req :: later, rs, .adding []⟩ = .halt := if_pos hang
        rw [Pool.alone, does] at step
        cases step
      · obtain ⟨rfl, rfl⟩ := next (Pool.alone_read (act_ended hang))
        refine ⟨⟨done, parts, results⟩, req, later, rfl, ?_, by rw [seen]; rfl⟩
        rw [req.alone_eq, made, seen]
        rfl
  | resetting result =>
    obtain ⟨req, later, rfl, same, held⟩ := phase
    obtain ⟨docBits, held⟩ := Option.isSome_iff_exists.mp held
    obtain ⟨rfl, rfl⟩ := next (Pool.alone_write rfl held)
    exact ⟨⟨done, parts, results⟩, req, later, rfl, same, Function.update_self ..⟩
  | putting result =>
    obtain ⟨req, later, rfl, same, held⟩ := phase
    obtain ⟨rfl, rfl⟩ := next (Pool.alone_put rfl held)
    refine ⟨⟨done ++ [req], by simpa using parts, ?_⟩, trivial⟩
    rw [List.map_append, ← results, List.map_singleton, same]

def stepsLeft (g : Goroutine) : Nat :=
  let later (todo : List Request) : Nat := (todo.map fun req => req.calls.1.length + 4).sum
  match g.phase with
  | .idle => later g.todo
  | .adding rest => rest.length + 3 + later g.todo.tail
  | .resetting _ => 2 + later g.todo.tail
  | .putting _ => 1 + later g.todo.tail

theorem Alone.moves {requests : List Request} {g : Goroutine} {view : Pool.View Unit DocIDCollector}
    (holds : Alone requests g view) (returns : ∀ req ∈ g.todo, req.calls.2 ≠ .error .hang) (some : g.stepsLeft ≠ 0) :
    ∃ g' view', Pool.alone ∅ act (g, view) = Option.some (g', view') ∧ g'.stepsLeft + 1 = g.stepsLeft ∧
      g'.todo ⊆ g.todo := by
  obtain ⟨_, phase⟩ := holds
  obtain ⟨todo, rs, now⟩ := g
  cases now with
  | idle =>
    cases todo with
    | nil => exact absurd rfl some
    | cons req later =>
      refine ⟨_, _, Pool.alone_get rfl, ?_, List.Subset.refl _⟩
      simp only [stepsLeft, List.tail_cons, List.map_cons, List.sum_cons]
      omega
  | adding rest =>
    obtain ⟨req, later, pre, rfl, made, seen⟩ := phase
    cases rest with
    | cons conjID rest =>
      refine ⟨_, _, Pool.alone_write rfl seen, ?_, List.Subset.refl _⟩
      simp only [stepsLeft, List.length_cons]
      omega
    | nil =>
      refine ⟨_, _, Pool.alone_read (act_ended (returns req List.mem_cons_self)), ?_, List.Subset.refl _⟩
      simp only [stepsLeft, List.length_nil]
      omega
  | resetting result =>
    obtain ⟨req, later, rfl, _, held⟩ := phase
    obtain ⟨docBits, held⟩ := Option.isSome_iff_exists.mp held
    refine ⟨_, _, Pool.alone_write rfl held, ?_, List.Subset.refl _⟩
    simp only [stepsLeft]
    omega
  | putting result =>
    obtain ⟨req, later, rfl, _, held⟩ := phase
    refine ⟨_, _, Pool.alone_put rfl held, ?_, List.subset_cons_self req later⟩
    simp only [stepsLeft, List.tail_cons]
    omega

theorem Alone.finishes {requests : List Request} {g : Goroutine} {view : Pool.View Unit DocIDCollector}
    (holds : Alone requests g view) (returns : ∀ req ∈ g.todo, req.calls.2 ≠ .error .hang) :
    ∃ g' view', Pool.Reaches ∅ act (g, view) (g', view') ∧ g'.results = requests.map Request.alone := by
  induction left : g.stepsLeft generalizing g view with
  | zero =>
    refine ⟨g, view, Relation.ReflTransGen.refl, ?_⟩
    obtain ⟨⟨done, parts, results⟩, _⟩ := holds
    have none : g.todo = [] := by
      obtain ⟨todo, rs, now⟩ := g
      cases now with
      | idle =>
        cases todo with
        | nil => rfl
        | cons req later => simp [stepsLeft] at left
      | adding rest | resetting result | putting result => simp [stepsLeft] at left
    rw [results, parts, none, List.append_nil]
  | succ n ih =>
    obtain ⟨g', view', step, fewer, subset⟩ := holds.moves returns (by omega)
    obtain ⟨g'', view'', reaches, finished⟩ := ih (holds.step step) (fun req mem => returns req (subset mem)) (by omega)
    exact ⟨g'', view'', reaches.head step, finished⟩

def start (requests : List Request) : Goroutine := ⟨requests, [], .idle⟩

theorem alone_of_reaches {requests : List Request} {c : Goroutine × Pool.View Unit DocIDCollector}
    (reaches : Pool.Reaches ∅ act (start requests, fun _ => none) c) : Alone requests c.1 c.2 := by
  induction reaches with
  | refl => exact ⟨⟨[], rfl, rfl⟩, trivial⟩
  | tail _ step ih => exact ih.step step

theorem tidy (requests : List Request) : Pool.Tidy ∅ act (start requests) := by
  intro c reaches r next does x held
  obtain ⟨_, phase⟩ := alone_of_reaches reaches
  obtain ⟨⟨todo, rs, now⟩, view⟩ := c
  cases now with
  | idle =>
    cases todo <;> cases does
  | adding rest =>
    cases rest with
    | cons => cases does
    | nil =>
      cases todo with
      | nil => cases does
      | cons req later =>
        have does : (if req.calls.2 = .error .hang then Pool.Action.halt else _) = _ := does
        split at does <;> cases does
  | resetting result => cases does
  | putting result =>
    obtain ⟨_, _, _, _, empty⟩ := phase
    exact Option.some.inj (held.symm.trans empty)

/-- Goroutines share the pool of collectors, in any interleaving of their steps. The calls of each have
returned what they return alone, and each can always finish. -/
theorem retrieves_alone {ι : Type} [DecidableEq ι] {requests : ι → List Request}
    {s : Pool.State ι Unit DocIDCollector Goroutine}
    (steps : Pool.Steps ∅ (fun _ => act) (Pool.initial ∅ fun i => start (requests i)) s) (i : ι) :
    (∃ done, requests i = done ++ (s.pc i).todo ∧ (s.pc i).results = done.map Request.alone) ∧
      ((∀ req ∈ requests i, req.alone ≠ .error .hang) →
        ∃ s', Pool.Steps ∅ (fun _ => act) s s' ∧ (s'.pc i).results = (requests i).map Request.alone) := by
  have inv := steps.inv (fun i => tidy (requests i)) Pool.initial_inv
  have alone := alone_of_reaches (inv.alone i)
  refine ⟨alone.split, fun returns => ?_⟩
  have noHang : ∀ req ∈ (s.pc i).todo, req.calls.2 ≠ .error .hang := by
    intro req mem hang
    obtain ⟨done, parts, _⟩ := alone.split
    refine returns req (parts ▸ List.mem_append_right _ mem) ?_
    rw [req.alone_eq, hang]
    rfl
  obtain ⟨g, view, reaches, finished⟩ := alone.finishes noHang
  obtain ⟨s', more, same⟩ := inv.goes_on (fun i => tidy (requests i)) reaches
  exact ⟨s', more, (congrArg (fun c => c.1.results) same).trans finished⟩

omit [FloatOps] [AhoMachine] in
/-- Two goroutines on an index with one document for all queries. The second reuses the collector that the
first has put back, before the first makes its second call. -/
theorem retrieves_alone_reuse :
    letI := FloatOps.noFloats
    letI := AhoMachine.naive
    let index : BEIndex := .compact { newCompactedBEIndex with wildcardEntries := [newEntryID (packConjID 7 0 0) true] }
    let req : Request := ⟨index, ∅, fun _ => ⟨[], .refl _⟩⟩
    ∃ s : Pool.State Bool Unit DocIDCollector Goroutine,
      Pool.Steps ∅ (fun _ => act) (Pool.initial ∅ fun i => start (if i then [req] else [req, req])) s ∧
      s.slots (.inr (true, ())) = some 0 ∧ s.slots (.inr (false, ())) = some 1 ∧ (s.pc false).results = [.ok [7]] ∧
      ∃ s', Pool.Steps ∅ (fun _ => act) s s' ∧ (s'.pc true).results = [.ok [7]] := by
  let _ := FloatOps.noFloats
  let _ := AhoMachine.naive
  intro index req
  have calls : req.calls = ([packConjID 7 0 0], .ok ()) := by decide +kernel
  have alone : req.alone = .ok [7] := by decide +kernel
  clear_value req
  have picks (todo : List Request) (rs : List (Go (List DocID))) :
      act ⟨req :: todo, rs, .idle⟩ = .get () ⟨req :: todo, rs, .adding [packConjID 7 0 0]⟩ := by
    show Pool.Action.get () (Goroutine.mk (req :: todo) rs (.adding req.calls.1)) = _
    rw [calls]
  have reads (todo : List Request) (rs : List (Go (List DocID))) : act ⟨req :: todo, rs, .adding []⟩ =
      .read fun view => ⟨req :: todo, rs, .resetting (collected ((view ()).getD ∅, .ok ()))⟩ := by
    rw [act_ended (by rw [calls]; exact nofun), calls]
  have before : Pool.Steps ∅ (fun _ => act)
    (Pool.initial ∅ fun i : Bool => start (if i then [req] else [req, req])) _ :=
    Pool.Steps.refl _
  have picked := before.go (.alloc (i := false) (picks [req] []))
  have returned := ((picked.go (.write (i := false) rfl rfl)).go (.read (i := false) (reads [req] []))).go
    (.write (i := false) rfl rfl)
  have steps := ((returned.go (.put (i := false) 0 rfl rfl)).go (.reuse (i := true) (k := 0) (picks [] []) rfl)).go
    (.alloc (i := false) (picks [] [_]))
  refine ⟨_, steps, rfl, rfl, ?_, ?_⟩
  · obtain ⟨done, parts, results⟩ := (retrieves_alone steps false).1
    have parts : [req] ++ [req] = done ++ [req] := parts
    obtain rfl := List.append_cancel_right parts
    exact results.trans (by simp [alone])
  · obtain ⟨s', more, results⟩ := (retrieves_alone steps true).2 (by simp [alone])
    exact ⟨s', more, results.trans (by simp [alone])⟩

end Goroutine

end BeIndexer
