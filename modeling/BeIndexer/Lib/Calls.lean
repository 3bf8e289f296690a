import Mathlib.Data.List.Forall2

/-!
# Calls that change a state

A call on a state either ends in a fault, after which nothing more runs, or leaves a state and a
result behind; an error is a result, and the state then keeps what the call did before it failed.
`andThen` and `mapCalls` are sequence and loop, both stopping at the first error. `Follows` compares
a call with a specification on another state, and its rules lift a comparison of single calls to
sequences and loops.
-/

namespace Calls

variable {φ ε σ τ ι κ α β γ δ : Type}

abbrev Outcome (φ ε σ α : Type) := Except φ (σ × Except ε α)

/-- The second call is made on the state that the first one left, unless it failed. -/
def andThen (o : Outcome φ ε σ α) (next : σ → α → Outcome φ ε σ β) : Outcome φ ε σ β :=
  match o with
  | .error fault => .error fault
  | .ok (s, .error e) => .ok (s, .error e)
  | .ok (s, .ok a) => next s a

/-- A loop that makes a call for each item and collects the results. -/
def mapCalls (call : σ → ι → Outcome φ ε σ α) (s : σ) : List ι → Outcome φ ε σ (List α)
  | [] => .ok (s, .ok [])
  | i :: rest => andThen (call s i) fun s a =>
      andThen (mapCalls call s rest) fun s as => .ok (s, .ok (a :: as))

theorem andThen_eq_ok {o : Outcome φ ε σ α} {next : σ → α → Outcome φ ε σ β} {s : σ} {b : β} :
    andThen o next = .ok (s, .ok b) ↔ ∃ s' a, o = .ok (s', .ok a) ∧ next s' a = .ok (s, .ok b) := by
  rcases o with fault | ⟨s', e | a⟩ <;> simp [andThen]

theorem mapCalls_cons_ok {call : σ → ι → Outcome φ ε σ α} {s s' : σ} {i : ι} {is : List ι} {as : List α} :
    mapCalls call s (i :: is) = .ok (s', .ok as) ↔
      ∃ s₁ a as', call s i = .ok (s₁, .ok a) ∧ mapCalls call s₁ is = .ok (s', .ok as') ∧ as = a :: as' := by
  simp only [mapCalls, andThen_eq_ok]
  constructor
  · rintro ⟨s₁, a, first, s₂, as', rest, done⟩
    obtain ⟨rfl, same⟩ := Prod.mk.inj (Except.ok.inj done)
    exact ⟨s₁, a, as', first, rest, (Except.ok.inj same).symm⟩
  · rintro ⟨s₁, a, as', first, rest, rfl⟩
    exact ⟨s₁, a, first, s', as', rest, rfl⟩

theorem mapCalls_cons_cases {call : σ → ι → Outcome φ ε σ α} {s s' : σ} {i : ι} {is : List ι} {r : Except ε (List α)}
    (run : mapCalls call s (i :: is) = .ok (s', r)) :
    (∃ e, call s i = .ok (s', .error e) ∧ r = .error e) ∨
      ∃ s₁ a r', call s i = .ok (s₁, .ok a) ∧ mapCalls call s₁ is = .ok (s', r') ∧ r = r'.map (a :: ·) := by
  rw [mapCalls] at run
  rcases first : call s i with fault | ⟨s₁, e | a⟩
  · rw [first] at run
    cases run
  · rw [first] at run
    obtain ⟨rfl, rfl⟩ := Prod.mk.inj (Except.ok.inj run)
    exact Or.inl ⟨e, rfl, rfl⟩
  · rw [first] at run
    dsimp only [andThen] at run
    rcases rest : mapCalls call s₁ is with fault | ⟨s₂, e | as⟩
    · rw [rest] at run
      cases run
    · rw [rest] at run
      obtain ⟨rfl, rfl⟩ := Prod.mk.inj (Except.ok.inj run)
      exact Or.inr ⟨s₁, a, _, rfl, rest, rfl⟩
    · rw [rest] at run
      obtain ⟨rfl, rfl⟩ := Prod.mk.inj (Except.ok.inj run)
      exact Or.inr ⟨s₁, a, _, rfl, rest, rfl⟩

theorem andThen_error {o : Outcome φ ε σ α} {f : α → β} {s : σ} {e : ε}
    (run : andThen o (fun s a => .ok (s, .ok (f a))) = .ok (s, .error e)) : o = .ok (s, .error e) := by
  rcases o with fault | ⟨s', e' | a⟩
  · cases run
  · simp only [andThen, Except.ok.injEq, Prod.mk.injEq, Except.error.injEq] at run
    rw [run.1, run.2]
  · simp [andThen] at run

theorem andThen_left {o : Outcome φ ε σ α} {f : α → β} {s : σ} {r : Except ε β}
    (run : andThen o (fun s a => .ok (s, .ok (f a))) = .ok (s, r)) : ∃ r', o = .ok (s, r') := by
  rcases o with fault | ⟨s', e' | a⟩
  · cases run
  · obtain ⟨rfl, _⟩ := Prod.mk.inj (Except.ok.inj run)
    exact ⟨_, rfl⟩
  · obtain ⟨rfl, _⟩ := Prod.mk.inj (Except.ok.inj run)
    exact ⟨_, rfl⟩

/-- The call failed and left a state with the given property. -/
def failed (p : σ → Bool) : Outcome φ ε σ α → Bool
  | .ok (s, .error _) => p s
  | _ => false

theorem failed_iff {p : σ → Bool} {o : Outcome φ ε σ α} :
    failed p o = true ↔ ∃ s e, o = .ok (s, .error e) ∧ p s = true := by
  rcases o with fault | ⟨s', e' | a⟩ <;> simp [failed]

/-- The call returned, with the given property of the state and the result. -/
def finished (p : σ → α → Bool) : Outcome φ ε σ α → Bool
  | .ok (s, .ok a) => p s a
  | _ => false

theorem finished_iff {p : σ → α → Bool} {o : Outcome φ ε σ α} :
    finished p o = true ↔ ∃ s a, o = .ok (s, .ok a) ∧ p s a = true := by
  rcases o with fault | ⟨s', e' | a⟩ <;> simp [finished]

/-- What a call on `s` leaves behind, whether it returns a value or an error. -/
def Leaves (Later : σ → σ → Prop) (Inv : σ → Prop) (Out : σ → α → Prop) (s : σ) (o : Outcome φ ε σ α) : Prop :=
  ∀ s' r, o = .ok (s', r) → Later s s' ∧ Inv s' ∧ ∀ a, r = .ok a → Out s' a

section Leaves

variable {Later : σ → σ → Prop} {Inv : σ → Prop} {Out : σ → α → Prop} {s : σ}

theorem Leaves.done (refl : ∀ s, Later s s) {a : α} (inv : Inv s) (out : Out s a) :
    Leaves Later Inv Out s (.ok (s, .ok a) : Outcome φ ε σ α) := by
  intro s' r run
  obtain ⟨rfl, rfl⟩ := Prod.mk.inj (Except.ok.inj run)
  refine ⟨refl _, inv, ?_⟩
  rintro _ ⟨⟩
  exact out

theorem Leaves.andThen {Out' : σ → β → Prop} (trans : ∀ a b c, Later a b → Later b c → Later a c)
    {o : Outcome φ ε σ α} {next : σ → α → Outcome φ ε σ β} (first : Leaves Later Inv Out s o)
    (rest : ∀ s' a, Later s s' → Inv s' → Out s' a → Leaves Later Inv Out' s' (next s' a)) :
    Leaves Later Inv Out' s (Calls.andThen o next) := by
  intro s'' r run
  rcases o with fault | ⟨s', e | a⟩
  · cases run
  · obtain ⟨rfl, rfl⟩ := Prod.mk.inj (Except.ok.inj run)
    obtain ⟨later, inv, _⟩ := first s' _ rfl
    exact ⟨later, inv, by rintro a ⟨⟩⟩
  · obtain ⟨later, inv, out⟩ := first s' _ rfl
    obtain ⟨later', inv', out'⟩ := rest s' a later inv (out a rfl) s'' r run
    exact ⟨trans _ _ _ later later', inv', out'⟩

theorem Leaves.mapCalls (refl : ∀ s, Later s s) (trans : ∀ a b c, Later a b → Later b c → Later a c)
    (keeps : ∀ s s' a, Later s s' → Out s a → Out s' a) {call : σ → ι → Outcome φ ε σ α} {is : List ι}
    (each : ∀ i ∈ is, ∀ s, Inv s → Leaves Later Inv Out s (call s i)) (start : Inv s) :
    Leaves Later Inv (fun s as => ∀ a ∈ as, Out s a) s (Calls.mapCalls call s is) := by
  induction is generalizing s with
  | nil => exact Leaves.done refl start (by simp)
  | cons i is ih =>
    refine Leaves.andThen trans (each i List.mem_cons_self s start) fun s' a _ inv out => ?_
    refine Leaves.andThen trans (ih (fun i mem => each i (List.mem_cons_of_mem _ mem)) inv)
      fun s'' as later inv outs => ?_
    exact Leaves.done refl inv (List.forall_mem_cons.mpr ⟨keeps _ _ _ later out, outs⟩)

end Leaves

/-- Where a call on `s` can lead, whether it returns a value or an error. -/
def Moves (Later : σ → σ → Prop) (s : σ) (o : Outcome φ ε σ α) : Prop := ∀ s' r, o = .ok (s', r) → Later s s'

section Moves

variable {Later : σ → σ → Prop} {s : σ}

theorem Moves.done (refl : ∀ s, Later s s) (r : Except ε α) : Moves Later s (.ok (s, r) : Outcome φ ε σ α) := by
  intro s' r' run
  obtain ⟨rfl, _⟩ := Prod.mk.inj (Except.ok.inj run)
  exact refl _

theorem Moves.andThen (trans : ∀ a b c, Later a b → Later b c → Later a c) {o : Outcome φ ε σ α}
    {next : σ → α → Outcome φ ε σ β} (first : Moves Later s o)
    (rest : ∀ s' a, Later s s' → Moves Later s' (next s' a)) : Moves Later s (Calls.andThen o next) := by
  intro s'' r run
  rcases o with fault | ⟨s', e | a⟩
  · cases run
  · obtain ⟨rfl, _⟩ := Prod.mk.inj (Except.ok.inj run)
    exact first s' _ rfl
  · have later := first s' _ rfl
    exact trans _ _ _ later (rest s' a later s'' r run)

theorem Moves.mapCalls (refl : ∀ s, Later s s) (trans : ∀ a b c, Later a b → Later b c → Later a c)
    {call : σ → ι → Outcome φ ε σ α} {is : List ι}
    (each : ∀ i ∈ is, ∀ s', Later s s' → Moves Later s' (call s' i)) : Moves Later s (Calls.mapCalls call s is) := by
  induction is generalizing s with
  | nil => exact Moves.done refl _
  | cons i is ih =>
    refine Moves.andThen trans (each i List.mem_cons_self s (refl s)) fun s' a later => ?_
    have others := ih fun j mem s'' later' => each j (List.mem_cons_of_mem _ mem) s'' (trans _ _ _ later later')
    exact Moves.andThen trans others fun _ _ _ => Moves.done refl _

end Moves

theorem mapCalls_inv {P : σ → Prop} {call : σ → ι → Outcome φ ε σ α} {s s' : σ} {is : List ι} {r : Except ε (List α)}
    (each : ∀ i ∈ is, ∀ s s' r, P s → call s i = .ok (s', r) → P s') (start : P s)
    (run : mapCalls call s is = .ok (s', r)) : P s' := by
  have keeps : ∀ i ∈ is, ∀ s, P s → Leaves (fun _ _ => True) P (fun _ _ => True) s (call s i) :=
    fun i mem s held s' r ran => ⟨trivial, each i mem s s' r held ran, fun _ _ => trivial⟩
  have loop := Leaves.mapCalls (fun _ => trivial) (fun _ _ _ _ _ => trivial) (fun _ _ _ _ _ => trivial) keeps start
  exact (loop s' r run).2.1

theorem foldlM_inv {P : σ → Prop} {f : σ → ι → Except φ σ} {s s' : σ} {is : List ι}
    (each : ∀ i ∈ is, ∀ s s', P s → f s i = .ok s' → P s') (start : P s) (run : is.foldlM f s = .ok s') : P s' := by
  induction is generalizing s with
  | nil =>
    obtain rfl := Except.ok.inj run
    exact start
  | cons i is ih =>
    rw [List.foldlM_cons] at run
    cases first : f s i with
    | error fault =>
      rw [first] at run
      cases run
    | ok s₁ =>
      rw [first] at run
      exact ih (fun j mem => each j (List.mem_cons_of_mem _ mem)) (each i List.mem_cons_self s s₁ start first) run

theorem mapCalls_error {call : σ → ι → Outcome φ ε σ α} {s s' : σ} {is : List ι} {e : ε}
    (run : mapCalls call s is = .ok (s', .error e)) :
    ∃ pre i post s₁ as, is = pre ++ i :: post ∧ mapCalls call s pre = .ok (s₁, .ok as) ∧
      call s₁ i = .ok (s', .error e) := by
  induction is generalizing s with
  | nil => cases run
  | cons i is ih =>
    rcases mapCalls_cons_cases run with ⟨e', first, same⟩ | ⟨s₁, a, r, first, rest, same⟩
    · obtain rfl := Except.error.inj same
      exact ⟨[], i, is, s, [], rfl, rfl, first⟩
    · obtain rfl : r = .error e := by
        cases r with
        | error e' => rw [Except.error.inj same]
        | ok as => cases same
      obtain ⟨pre, i', post, s₂, as, rfl, before, failed⟩ := ih rest
      exact ⟨i :: pre, i', post, s₂, a :: as, rfl, by simp [mapCalls, first, andThen, before], failed⟩

/-! ### Planned steps -/

section Steps

variable {ω : Type}

/-- What is written before the first step that fails. -/
def upTo : List (Except φ (List ω)) → List ω
  | [] => []
  | .ok ws :: rest => ws ++ upTo rest
  | .error _ :: _ => []

/-- No step fails. -/
def Succeed (steps : List (Except φ (List ω))) : Prop := ∀ step ∈ steps, ∃ ws, step = .ok ws

theorem upTo_append {steps : List (Except φ (List ω))} (succeed : Succeed steps) (rest : List (Except φ (List ω))) :
    upTo (steps ++ rest) = upTo steps ++ upTo rest := by
  induction steps with
  | nil => rfl
  | cons step steps ih =>
    obtain ⟨ws, rfl⟩ := succeed step List.mem_cons_self
    simp only [List.cons_append, upTo, ih fun step mem => succeed step (List.mem_cons_of_mem _ mem), List.append_assoc]

theorem upTo_append_failed {steps : List (Except φ (List ω))} (failed : ¬ Succeed steps)
    (rest : List (Except φ (List ω))) : upTo (steps ++ rest) = upTo steps := by
  induction steps with
  | nil => exact absurd (fun _ mem => absurd mem List.not_mem_nil) failed
  | cons step steps ih =>
    cases step with
    | error f => rfl
    | ok ws =>
      simp only [List.cons_append, upTo]
      rw [ih fun succeed => failed (List.forall_mem_cons.mpr ⟨⟨ws, rfl⟩, succeed⟩)]

theorem exists_of_mem_upTo {steps : List (Except φ (List ω))} {w : ω} (mem : w ∈ upTo steps) :
    ∃ ws, .ok ws ∈ steps ∧ w ∈ ws := by
  induction steps with
  | nil => cases mem
  | cons step steps ih =>
    cases step with
    | error f => cases mem
    | ok ws =>
      rcases List.mem_append.mp mem with here | later
      · exact ⟨ws, List.mem_cons_self, here⟩
      · obtain ⟨ws', listed, held⟩ := ih later
        exact ⟨ws', List.mem_cons_of_mem _ listed, held⟩

theorem mem_upTo {steps : List (Except φ (List ω))} (succeed : Succeed steps) {w : ω} :
    w ∈ upTo steps ↔ ∃ ws, .ok ws ∈ steps ∧ w ∈ ws := by
  refine ⟨exists_of_mem_upTo, ?_⟩
  intro ⟨ws, listed, held⟩
  induction steps with
  | nil => cases listed
  | cons step steps ih =>
    obtain ⟨here, rfl⟩ := succeed step List.mem_cons_self
    rw [upTo, List.mem_append]
    rcases List.mem_cons.mp listed with same | later
    · exact Or.inl (Except.ok.inj same ▸ held)
    · exact Or.inr (ih (fun step mem => succeed step (List.mem_cons_of_mem _ mem)) later)

theorem succeed_flatMap {plan : ι → List (Except φ (List ω))} {is : List ι} :
    Succeed (is.flatMap plan) ↔ ∀ i ∈ is, Succeed (plan i) := by
  simp only [Succeed, List.mem_flatMap]
  exact ⟨fun all i mem step inside => all step ⟨i, mem, inside⟩, fun all step ⟨i, mem, inside⟩ => all i mem step inside⟩

theorem mem_upTo_flatMap {plan : ι → List (Except φ (List ω))} {is : List ι} (succeed : ∀ i ∈ is, Succeed (plan i))
    {w : ω} : w ∈ upTo (is.flatMap plan) ↔ ∃ i ∈ is, w ∈ upTo (plan i) := by
  rw [mem_upTo (succeed_flatMap.mpr succeed)]
  constructor
  · rintro ⟨ws, listed, mem⟩
    obtain ⟨i, inside, planned⟩ := List.mem_flatMap.mp listed
    exact ⟨i, inside, (mem_upTo (succeed i inside)).mpr ⟨ws, planned, mem⟩⟩
  · rintro ⟨i, inside, held⟩
    obtain ⟨ws, planned, mem⟩ := (mem_upTo (succeed i inside)).mp held
    exact ⟨ws, List.mem_flatMap.mpr ⟨i, inside, planned⟩, mem⟩

theorem succeed_append {steps rest : List (Except φ (List ω))} :
    Succeed (steps ++ rest) ↔ Succeed steps ∧ Succeed rest := by
  simp only [Succeed, List.forall_mem_append]

/-- Two plans that fail together and write the same. -/
structure SamePlan (steps steps' : List (Except φ (List ω))) : Prop where
  succeed : Succeed steps ↔ Succeed steps'
  writes : ∀ w, w ∈ upTo steps ↔ w ∈ upTo steps'

theorem SamePlan.refl (steps : List (Except φ (List ω))) : SamePlan steps steps := ⟨Iff.rfl, fun _ => Iff.rfl⟩

theorem SamePlan.append {steps steps' rest rest' : List (Except φ (List ω))} (first : SamePlan steps steps')
    (second : SamePlan rest rest') : SamePlan (steps ++ rest) (steps' ++ rest') := by
  refine ⟨by rw [succeed_append, succeed_append, first.succeed, second.succeed], fun w => ?_⟩
  by_cases succeed : Succeed steps
  · rw [upTo_append succeed, upTo_append (first.succeed.mp succeed), List.mem_append, List.mem_append, first.writes,
      second.writes]
  · rw [upTo_append_failed succeed, upTo_append_failed (fun other => succeed (first.succeed.mpr other)), first.writes]

theorem SamePlan.flatMap {plan : ι → List (Except φ (List ω))} {is js : List ι}
    (items : List.Forall₂ (fun i j => SamePlan (plan i) (plan j)) is js) :
    SamePlan (is.flatMap plan) (js.flatMap plan) := by
  induction items with
  | nil => exact SamePlan.refl []
  | cons item _ ih =>
    rw [List.flatMap_cons, List.flatMap_cons]
    exact item.append ih

variable {χ : Type} {Wrote : σ → List ω → σ → Prop} {s : σ}

/-- A call that performs planned steps up to the first that fails, and returns an error exactly if one
does. -/
def Performs (Wrote : σ → List ω → σ → Prop) (s : σ) (steps : List (Except χ (List ω))) (o : Outcome φ ε σ α) : Prop :=
  ∀ s' r, o = .ok (s', r) → Wrote s (upTo steps) s' ∧ ((∃ a, r = .ok a) ↔ Succeed steps)

theorem Performs.done (nil : ∀ s, Wrote s [] s) (a : α) :
    Performs Wrote s ([] : List (Except χ (List ω))) (.ok (s, .ok a) : Outcome φ ε σ α) := by
  intro s' r run
  obtain ⟨rfl, rfl⟩ := Prod.mk.inj (Except.ok.inj run)
  exact ⟨nil _, fun _ _ mem => absurd mem List.not_mem_nil, fun _ => ⟨a, rfl⟩⟩

theorem Performs.andThen (append : ∀ a ws b ws' c, Wrote a ws b → Wrote b ws' c → Wrote a (ws ++ ws') c)
    {steps rest : List (Except χ (List ω))} {o : Outcome φ ε σ α} {next : σ → α → Outcome φ ε σ β}
    (first : Performs Wrote s steps o) (then_ : ∀ s' a, Wrote s (upTo steps) s' → Performs Wrote s' rest (next s' a)) :
    Performs Wrote s (steps ++ rest) (Calls.andThen o next) := by
  intro s'' r run
  rcases o with fault | ⟨s', e | a⟩
  · cases run
  · obtain ⟨rfl, rfl⟩ := Prod.mk.inj (Except.ok.inj run)
    obtain ⟨wrote, returned⟩ := first s' _ rfl
    have failed : ¬ Succeed steps := fun succeed => by
      obtain ⟨_, absurd⟩ := returned.mpr succeed
      cases absurd
    rw [upTo_append_failed failed]
    refine ⟨wrote, (by rintro ⟨_, ⟨⟩⟩), fun succeed => ?_⟩
    exact absurd (fun step mem => succeed step (List.mem_append_left _ mem)) failed
  · obtain ⟨wrote, returned⟩ := first s' _ rfl
    have succeed := returned.mp ⟨a, rfl⟩
    obtain ⟨wrote', returned'⟩ := then_ s' a wrote s'' r run
    rw [upTo_append succeed]
    refine ⟨append _ _ _ _ _ wrote wrote', returned'.trans ?_⟩
    rw [succeed_append]
    exact ⟨fun rest => ⟨succeed, rest⟩, fun both => both.2⟩

theorem Performs.mapCalls (nil : ∀ s, Wrote s [] s)
    (append : ∀ a ws b ws' c, Wrote a ws b → Wrote b ws' c → Wrote a (ws ++ ws') c)
    {call : σ → ι → Outcome φ ε σ α} {plan : ι → List (Except χ (List ω))} {is : List ι}
    (each : ∀ i ∈ is, ∀ s' ws, Wrote s ws s' → Performs Wrote s' (plan i) (call s' i)) :
    Performs Wrote s (is.flatMap plan) (Calls.mapCalls call s is) := by
  induction is generalizing s with
  | nil => exact Performs.done nil []
  | cons i is ih =>
    rw [List.flatMap_cons]
    refine Performs.andThen append (each i List.mem_cons_self s [] (nil s)) fun s' a wrote => ?_
    have others := ih fun j mem s'' ws later => each j (List.mem_cons_of_mem _ mem) s'' _ (append _ _ _ _ _ wrote later)
    have closed := Performs.andThen append others fun s'' as _ => Performs.done nil (a :: as)
    rwa [List.append_nil] at closed

end Steps

/-- The comparison of two runs that cannot fail other than by a fault. -/
inductive Tracks (R : σ → τ → Prop) : Except φ σ → Except φ τ → Prop
  | fault (f : φ) : Tracks R (.error f) (.error f)
  | done {s : σ} {t : τ} (h : R s t) : Tracks R (.ok s) (.ok t)

theorem Tracks.ok_left {R : σ → τ → Prop} {s : σ} {y : Except φ τ} (h : Tracks R (.ok s) y) :
    ∃ t, y = .ok t ∧ R s t := by
  cases h with
  | done h => exact ⟨_, rfl, h⟩

theorem Tracks.imp {R S : σ → τ → Prop} {x : Except φ σ} {y : Except φ τ} (h : Tracks R x y)
    (weaker : ∀ s t, R s t → S s t) : Tracks S x y := by
  cases h with
  | fault f => exact .fault f
  | done h => exact .done (weaker _ _ h)

theorem Tracks.bind {R : σ → τ → Prop} {S : α → β → Prop} {x : Except φ σ} {y : Except φ τ}
    {f : σ → Except φ α} {g : τ → Except φ β} (h : Tracks R x y) (next : ∀ s t, R s t → Tracks S (f s) (g t)) :
    Tracks S (x >>= f) (y >>= g) := by
  cases h with
  | fault f => exact .fault f
  | done h => exact next _ _ h

theorem Tracks.foldlM {R : σ → τ → Prop} {Item : ι → κ → Prop} {f : σ → ι → Except φ σ} {g : τ → κ → Except φ τ}
    {is : List ι} {js : List κ} (items : List.Forall₂ Item is js)
    (each : ∀ i j, Item i j → ∀ s t, R s t → Tracks R (f s i) (g t j)) {s : σ} {t : τ} (start : R s t) :
    Tracks R (is.foldlM f s) (js.foldlM g t) := by
  induction items generalizing s t with
  | nil => exact .done start
  | cons item items ih =>
    rw [List.foldlM_cons, List.foldlM_cons]
    exact (each _ _ item s t start).bind fun _ _ h => ih h

/-- The comparison of a call, made on `s`, with its specification: both end in one fault, both
return one error, or both return a value, and these are related. -/
inductive Follows (Later : σ → σ → Prop) (Inv : σ → τ → Prop) (Out : σ → α → β → Prop) (s : σ) :
    Outcome φ ε σ α → Outcome φ ε τ β → Prop
  | fault (f : φ) : Follows Later Inv Out s (.error f) (.error f)
  | failed {s' : σ} {t' : τ} (e : ε) (later : Later s s') (inv : Inv s' t') :
      Follows Later Inv Out s (.ok (s', .error e)) (.ok (t', .error e))
  | done {s' : σ} {t' : τ} {a : α} {b : β} (later : Later s s') (inv : Inv s' t') (out : Out s' a b) :
      Follows Later Inv Out s (.ok (s', .ok a)) (.ok (t', .ok b))

namespace Follows

variable {Later : σ → σ → Prop} {Inv : σ → τ → Prop} {s : σ}

theorem ok_left {Out : σ → α → β → Prop} {s' : σ} {r : Except ε α} {p : Outcome φ ε τ β}
    (h : Follows Later Inv Out s (.ok (s', r)) p) :
    Later s s' ∧ ∃ t', Inv s' t' ∧
      ((∃ e, r = .error e ∧ p = .ok (t', .error e)) ∨ ∃ a b, r = .ok a ∧ p = .ok (t', .ok b) ∧ Out s' a b) := by
  cases h with
  | failed e later inv => exact ⟨later, _, inv, Or.inl ⟨e, rfl, rfl⟩⟩
  | done later inv out => exact ⟨later, _, inv, Or.inr ⟨_, _, rfl, rfl, out⟩⟩

theorem earlier {Out : σ → α → β → Prop} (trans : ∀ a b c, Later a b → Later b c → Later a c) {s₀ : σ}
    {o : Outcome φ ε σ α} {p : Outcome φ ε τ β} (since : Later s₀ s) (h : Follows Later Inv Out s o p) :
    Follows Later Inv Out s₀ o p := by
  cases h with
  | fault f => exact .fault f
  | failed e later inv => exact .failed e (trans _ _ _ since later) inv
  | done later inv out => exact .done (trans _ _ _ since later) inv out

theorem returns_left {Out : σ → Unit → Unit → Prop} {s' : σ} {r : Except ε Unit} {p : Outcome φ ε τ Unit}
    (h : Follows Later Inv Out s (.ok (s', r)) p) : ∃ t', Inv s' t' ∧ p = .ok (t', r) := by
  obtain ⟨_, t', inv, ends⟩ := h.ok_left
  refine ⟨t', inv, ?_⟩
  rcases ends with ⟨e, rfl, ran⟩ | ⟨_, _, rfl, ran, _⟩
  · exact ran
  · exact ran

theorem returns_right {Out : σ → Unit → Unit → Prop} {t' : τ} {r : Except ε Unit} {o : Outcome φ ε σ Unit}
    (h : Follows Later Inv Out s o (.ok (t', r))) : ∃ s', Inv s' t' ∧ o = .ok (s', r) := by
  cases h with
  | failed e _ inv => exact ⟨_, inv, rfl⟩
  | done _ inv _ => exact ⟨_, inv, rfl⟩

theorem imp {Out Out' : σ → α → β → Prop} {o : Outcome φ ε σ α} {p : Outcome φ ε τ β}
    (h : Follows Later Inv Out s o p) (weaker : ∀ s' a b, Later s s' → Out s' a b → Out' s' a b) :
    Follows Later Inv Out' s o p := by
  cases h with
  | fault f => exact .fault f
  | failed e later inv => exact .failed e later inv
  | done later inv out => exact .done later inv (weaker _ _ _ later out)

theorem inv {Inv' : σ → τ → Prop} {Out : σ → α → β → Prop} {o : Outcome φ ε σ α} {p : Outcome φ ε τ β}
    (h : Follows Later Inv Out s o p) (change : ∀ s' t', Later s s' → Inv s' t' → Inv' s' t') :
    Follows Later Inv' Out s o p := by
  cases h with
  | fault f => exact .fault f
  | failed e later inv => exact .failed e later (change _ _ later inv)
  | done later inv out => exact .done later (change _ _ later inv) out

theorem andThen {Out : σ → α → β → Prop} {Out' : σ → γ → δ → Prop}
    (trans : ∀ a b c, Later a b → Later b c → Later a c)
    {o : Outcome φ ε σ α} {p : Outcome φ ε τ β} {f : σ → α → Outcome φ ε σ γ} {g : τ → β → Outcome φ ε τ δ}
    (first : Follows Later Inv Out s o p)
    (next : ∀ s' t' a b, Later s s' → Inv s' t' → Out s' a b → Follows Later Inv Out' s' (f s' a) (g t' b)) :
    Follows Later Inv Out' s (Calls.andThen o f) (Calls.andThen p g) := by
  cases first with
  | fault f => exact .fault f
  | failed e later inv => exact .failed e later inv
  | done later inv out => exact (next _ _ _ _ later inv out).earlier trans later

/-- Loops over related items follow each other when their turns do. -/
theorem mapCalls {Item : ι → κ → Prop} {Out : σ → α → β → Prop} (refl : ∀ s, Later s s)
    (trans : ∀ a b c, Later a b → Later b c → Later a c)
    (keeps : ∀ s s' a b, Later s s' → Out s a b → Out s' a b)
    {call : σ → ι → Outcome φ ε σ α} {spec : τ → κ → Outcome φ ε τ β} {is : List ι} {js : List κ}
    (items : List.Forall₂ Item is js)
    (each : ∀ i ∈ is, ∀ j, Item i j → ∀ s t, Inv s t → Follows Later Inv Out s (call s i) (spec t j))
    {t : τ} (start : Inv s t) :
    Follows Later Inv (fun s as bs => List.Forall₂ (Out s) as bs) s
      (Calls.mapCalls call s is) (Calls.mapCalls spec t js) := by
  induction items generalizing s t with
  | nil => exact .done (refl s) start .nil
  | cons item items ih =>
    refine andThen trans (each _ List.mem_cons_self _ item s t start) fun s' t' a b _ inv out => ?_
    refine andThen trans (ih (fun i hi => each i (List.mem_cons_of_mem _ hi)) inv)
      fun s'' t'' as bs later inv outs => ?_
    exact .done (refl _) inv (.cons (keeps _ _ _ _ later out) outs)

end Follows

end Calls
