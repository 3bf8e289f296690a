import Mathlib.Logic.Function.Basic
import Mathlib.Logic.Relation

/-!
# Pools of reusable objects

Clients get objects from a shared pool, work on them and put them back. The pool hands out an object that
was put back or a new one, and may forget what it has. If every client, run alone, puts only clean objects
back, then in every interleaving each client sees what it would see alone with new objects.
-/

namespace Pool

open Function

/-- The contents of the objects a client holds, by the names it has for them. -/
abbrev View (ρ β : Type*) := ρ → Option β

/-- What a client does next. `ρ` are its names for objects, `β` is what objects hold, `ℓ` its own state. -/
inductive Action (ρ β ℓ : Type*) where
  | get (r : ρ) (next : ℓ)
  | read (next : View ρ β → ℓ)
  | write (r : ρ) (f : View ρ β → β) (next : View ρ β → ℓ)
  | put (r : ρ) (next : ℓ)
  | halt

variable {ι ρ β ℓ : Type*} [DecidableEq ι] [DecidableEq ρ]

/-- One step of a client that always gets new objects. -/
def alone (fresh : β) (act : ℓ → Action ρ β ℓ) (c : ℓ × View ρ β) : Option (ℓ × View ρ β) :=
  match act c.1 with
  | .get r next => some (next, update c.2 r (some fresh))
  | .read next => some (next c.2, c.2)
  | .write r f next => if (c.2 r).isSome then some (next c.2, update c.2 r (some (f c.2))) else none
  | .put r next => if (c.2 r).isSome then some (next, update c.2 r none) else none
  | .halt => none

/-- What a client can come to alone. -/
def Reaches (fresh : β) (act : ℓ → Action ρ β ℓ) : ℓ × View ρ β → ℓ × View ρ β → Prop :=
  Relation.ReflTransGen fun c c' => alone fresh act c = some c'

/-- Alone, the client puts only clean objects back. -/
def Tidy (fresh : β) (act : ℓ → Action ρ β ℓ) (start : ℓ) : Prop :=
  ∀ c, Reaches fresh act (start, fun _ => none) c → ∀ r next, act c.1 = .put r next → ∀ x, c.2 r = some x → x = fresh

/-- Objects are numbers. A slot of the pool or a name of a client may hold one. -/
structure State (ι ρ β ℓ : Type*) where
  slots : Nat ⊕ ι × ρ → Option Nat
  content : Nat → β
  -- the objects from here on are not in use
  next : Nat
  pc : ι → ℓ

def State.view (s : State ι ρ β ℓ) (i : ι) : View ρ β := fun r => (s.slots (.inr (i, r))).map s.content

/-- One step of a client or, with no client, of the pool. -/
inductive Step (fresh : β) (act : ι → ℓ → Action ρ β ℓ) (s : State ι ρ β ℓ) : Option ι → State ι ρ β ℓ → Prop
  | reuse {i : ι} {r : ρ} {next : ℓ} {k o : Nat} (does : act i (s.pc i) = .get r next)
    (pooled : s.slots (.inl k) = some o) :
    Step fresh act s (some i) { s with
      slots := update (update s.slots (.inl k) none) (.inr (i, r)) (some o), pc := update s.pc i next }
  | alloc {i : ι} {r : ρ} {next : ℓ} (does : act i (s.pc i) = .get r next) :
    Step fresh act s (some i)
      { slots := update s.slots (.inr (i, r)) (some s.next), content := update s.content s.next fresh,
        next := s.next + 1, pc := update s.pc i next }
  | read {i : ι} {next : View ρ β → ℓ} (does : act i (s.pc i) = .read next) :
    Step fresh act s (some i) { s with pc := update s.pc i (next (s.view i)) }
  | write {i : ι} {r : ρ} {f : View ρ β → β} {next : View ρ β → ℓ} {o : Nat} (does : act i (s.pc i) = .write r f next)
      (held : s.slots (.inr (i, r)) = some o) :
    Step fresh act s (some i) { s with
      content := update s.content o (f (s.view i)), pc := update s.pc i (next (s.view i)) }
  | put {i : ι} {r : ρ} {next : ℓ} {o : Nat} (k : Nat) (does : act i (s.pc i) = .put r next)
      (held : s.slots (.inr (i, r)) = some o) :
    Step fresh act s (some i) { s with
      slots := update (update s.slots (.inr (i, r)) none) (.inl k) (some o), pc := update s.pc i next }
  | forget (k : Nat) : Step fresh act s none { s with slots := update s.slots (.inl k) none }

/-- Steps of any clients and of the pool, in any order. -/
def Steps (fresh : β) (act : ι → ℓ → Action ρ β ℓ) : State ι ρ β ℓ → State ι ρ β ℓ → Prop :=
  Relation.ReflTransGen fun s s' => ∃ mover, Step fresh act s mover s'

/-- No object is held twice, what is in the pool is clean, and every client is where it could be alone. -/
structure Inv (fresh : β) (act : ι → ℓ → Action ρ β ℓ) (start : ι → ℓ) (s : State ι ρ β ℓ) : Prop where
  single : ∀ x y o, s.slots x = some o → s.slots y = some o → x = y
  below : ∀ x o, s.slots x = some o → o < s.next
  clean : ∀ k o, s.slots (.inl k) = some o → s.content o = fresh
  alone : ∀ i, Reaches fresh (act i) (start i, fun _ => none) (s.pc i, s.view i)

/-- Nothing is in the pool and no client has begun. -/
def initial (fresh : β) (start : ι → ℓ) : State ι ρ β ℓ where
  slots _ := none
  content _ := fresh
  next := 0
  pc := start

variable {fresh : β} {act : ι → ℓ → Action ρ β ℓ} {start : ι → ℓ} {s s' : State ι ρ β ℓ}

omit [DecidableEq ι] in
theorem initial_inv : Inv fresh act start (initial fresh start) where
  single _ _ _ held := nomatch held
  below _ _ held := nomatch held
  clean _ _ held := nomatch held
  alone _ := Relation.ReflTransGen.refl

/-! ### Moving an object -/

section Move

variable {κ : Type*} [DecidableEq κ] {slots : κ → Option Nat} {a b : κ} {o : Nat}

theorem move_eq_some {x : κ} {p : Nat} (move : update (update slots a none) b (some o) x = some p) :
    x = b ∧ p = o ∨ x ≠ a ∧ x ≠ b ∧ slots x = some p := by
  by_cases here : x = b
  · subst here
    rw [update_self] at move
    exact Or.inl ⟨rfl, (Option.some.inj move).symm⟩
  · rw [update_of_ne here] at move
    by_cases gone : x = a
    · subst gone
      rw [update_self] at move
      cases move
    · rw [update_of_ne gone] at move
      exact Or.inr ⟨gone, here, move⟩

theorem move_of_ne {x : κ} (notA : x ≠ a) (notB : x ≠ b) : update (update slots a none) b (some o) x = slots x := by
  rw [update_of_ne notB, update_of_ne notA]

theorem move_gone (ne : a ≠ b) : update (update slots a none) b (some o) a = none := by
  rw [update_of_ne ne, update_self]

theorem move_single (single : ∀ x y p, slots x = some p → slots y = some p → x = y) (held : slots a = some o)
    (x y : κ) (p : Nat) (hx : update (update slots a none) b (some o) x = some p)
    (hy : update (update slots a none) b (some o) y = some p) : x = y := by
  rcases move_eq_some hx with ⟨hereX, same⟩ | ⟨notA, _, hx⟩
  · rcases move_eq_some hy with ⟨hereY, _⟩ | ⟨notA, _, hy⟩
    · exact hereX.trans hereY.symm
    · exact absurd (single y a p hy (same ▸ held)) notA
  · rcases move_eq_some hy with ⟨_, same⟩ | ⟨_, _, hy⟩
    · exact absurd (single x a p hx (same ▸ held)) notA
    · exact single x y p hx hy

theorem clear_eq_some {x : κ} {p : Nat} (clear : update slots a none x = some p) : slots x = some p := by
  by_cases gone : x = a
  · subst gone
    rw [update_self] at clear
    cases clear
  · rwa [update_of_ne gone] at clear

theorem fresh_eq_some {x : κ} {p : Nat} (set : update slots b (some o) x = some p) :
    x = b ∧ p = o ∨ x ≠ b ∧ slots x = some p := by
  by_cases here : x = b
  · subst here
    rw [update_self] at set
    exact Or.inl ⟨rfl, (Option.some.inj set).symm⟩
  · rw [update_of_ne here] at set
    exact Or.inr ⟨here, set⟩

end Move

/-! ### One step -/

omit [DecidableEq ι] [DecidableEq ρ] in
theorem view_held {i : ι} {r : ρ} {o : Nat} (held : s.slots (.inr (i, r)) = some o) :
    s.view i r = some (s.content o) := by
  rw [State.view, held]
  rfl

omit [DecidableEq ι] [DecidableEq ρ] in
theorem view_congr {i : ι} (slots : ∀ r, s'.slots (.inr (i, r)) = s.slots (.inr (i, r)))
    (content : ∀ r o, s.slots (.inr (i, r)) = some o → s'.content o = s.content o) : s'.view i = s.view i := by
  funext r
  unfold State.view
  rw [slots]
  cases held : s.slots (.inr (i, r)) with
  | none => rfl
  | some o => exact congrArg some (content r o held)

omit [DecidableEq ι] in
theorem view_update {i : ι} {r : ρ} {o : Option Nat} {x : Option β} (here : s'.slots (.inr (i, r)) = o)
    (value : o.map s'.content = x) (slots : ∀ q, q ≠ r → s'.slots (.inr (i, q)) = s.slots (.inr (i, q)))
    (content : ∀ q o, q ≠ r → s.slots (.inr (i, q)) = some o → s'.content o = s.content o) :
    s'.view i = update (s.view i) r x := by
  funext q
  by_cases same : q = r
  · subst same
    rw [update_self, State.view, here, value]
  · rw [update_of_ne same, State.view, State.view, slots q same]
    cases held : s.slots (.inr (i, q)) with
    | none => rfl
    | some o => exact congrArg some (content q o same held)

section Alone

variable {step : ℓ → Action ρ β ℓ} {l : ℓ} {v : View ρ β} {r : ρ}

theorem alone_get {next : ℓ} (does : step l = .get r next) :
    alone fresh step (l, v) = some (next, update v r (some fresh)) := by
  rw [alone, does]

theorem alone_read {next : View ρ β → ℓ} (does : step l = .read next) : alone fresh step (l, v) = some (next v, v) := by
  rw [alone, does]

theorem alone_write {f : View ρ β → β} {next : View ρ β → ℓ} {x : β} (does : step l = .write r f next)
    (held : v r = some x) : alone fresh step (l, v) = some (next v, update v r (some (f v))) := by
  rw [alone, does]
  simp [held]

theorem alone_put {next : ℓ} {x : β} (does : step l = .put r next) (held : v r = some x) :
    alone fresh step (l, v) = some (next, update v r none) := by
  rw [alone, does]
  simp [held]

end Alone

omit [DecidableEq ι] [DecidableEq ρ] in
theorem name_ne_slot {j : ι} {q : ρ} {k : Nat} : (Sum.inr (j, q) : Nat ⊕ ι × ρ) ≠ .inl k := nofun

omit [DecidableEq ι] [DecidableEq ρ] in
theorem name_ne {i j : ι} {q r : ρ} (other : j ≠ i ∨ q ≠ r) : (Sum.inr (j, q) : Nat ⊕ ι × ρ) ≠ .inr (i, r) := by
  intro same
  obtain ⟨sameClient, sameName⟩ := Prod.mk.inj (Sum.inr.inj same)
  exact other.elim (· sameClient) (· sameName)

omit [DecidableEq ι] in
theorem Inv.write_other (inv : Inv fresh act start s) {x y : Nat ⊕ ι × ρ} {o p : Nat} {z : β}
    (held : s.slots y = some o)
    (other : x ≠ y) (heldX : s.slots x = some p) : update s.content o z p = s.content p := by
  apply update_of_ne
  rintro rfl
  exact other (inv.single x y p heldX held)

omit [DecidableEq ι] in
theorem Inv.alloc_other (inv : Inv fresh act start s) {x : Nat ⊕ ι × ρ} {p : Nat} {z : β} (heldX : s.slots x = some p) :
    update s.content s.next z p = s.content p := update_of_ne (Nat.ne_of_lt (inv.below x p heldX)) ..

theorem Step.own {i : ι} (inv : Inv fresh act start s) (step : Step fresh act s (some i) s') :
    Pool.alone fresh (act i) (s.pc i, s.view i) = some (s'.pc i, s'.view i) := by
  have moved : ∀ {l : ℓ} {v : View ρ β}, Pool.alone fresh (act i) (s.pc i, s.view i) = some (l, v) → s'.pc i = l →
      s'.view i = v → Pool.alone fresh (act i) (s.pc i, s.view i) = some (s'.pc i, s'.view i) := by
    intro l v alone pc view
    rw [alone, pc, view]
  cases step with
  | @reuse _ r next k o does held =>
    refine moved (alone_get does) (update_self ..) ?_
    refine view_update (o := some o) (update_self ..) (congrArg some (inv.clean k o held)) (fun q ne => ?_)
      fun _ _ _ _ => rfl
    exact move_of_ne name_ne_slot (name_ne (Or.inr ne))
  | @alloc _ r next does =>
    refine moved (alone_get does) (update_self ..) ?_
    refine view_update (o := some s.next) (update_self ..) (congrArg some (update_self ..)) (fun q ne => ?_)
      fun q p _ held => inv.alloc_other held
    exact update_of_ne (name_ne (Or.inr ne)) ..
  | read does => exact moved (alone_read does) (update_self ..) rfl
  | @write _ r f next o does held =>
    refine moved (alone_write does (view_held held)) (update_self ..) ?_
    exact view_update held (congrArg some (update_self ..)) (fun _ _ => rfl)
      fun q p ne heldQ => inv.write_other held (name_ne (Or.inr ne)) heldQ
  | @put _ r next o k does held =>
    refine moved (alone_put does (view_held held)) (update_self ..) ?_
    have gone : update (update s.slots (.inr (i, r)) none) (.inl k) (some o) (.inr (i, r)) = none :=
      move_gone name_ne_slot
    refine view_update (o := none) gone rfl (fun q ne => ?_) fun _ _ _ _ => rfl
    show update (update s.slots (.inr (i, r)) none) (.inl k) (some o) (.inr (i, q)) = _
    exact move_of_ne (name_ne (Or.inr ne)) name_ne_slot

theorem Step.other {mover : Option ι} {j : ι} (inv : Inv fresh act start s) (step : Step fresh act s mover s')
    (other : mover ≠ some j) : s'.pc j = s.pc j ∧ s'.view j = s.view j := by
  have ne : ∀ {i : ι}, some i ≠ some j → j ≠ i := fun other same => other (congrArg some same.symm)
  cases step with
  | reuse does held =>
    refine ⟨update_of_ne (ne other) .., view_congr (fun q => ?_) fun _ _ _ => rfl⟩
    exact move_of_ne name_ne_slot (name_ne (Or.inl (ne other)))
  | alloc does =>
    refine ⟨update_of_ne (ne other) .., view_congr (fun q => ?_) fun _ _ held => inv.alloc_other held⟩
    exact update_of_ne (name_ne (Or.inl (ne other))) ..
  | read does => exact ⟨update_of_ne (ne other) .., rfl⟩
  | write does held =>
    refine ⟨update_of_ne (ne other) .., view_congr (fun _ => rfl) fun q p heldQ => ?_⟩
    exact inv.write_other held (name_ne (Or.inl (ne other))) heldQ
  | @put i r _ o k does held =>
    refine ⟨update_of_ne (ne other) .., view_congr (fun q => ?_) fun _ _ _ => rfl⟩
    show update (update s.slots (.inr (i, r)) none) (.inl k) (some o) (.inr (j, q)) = _
    exact move_of_ne (name_ne (Or.inl (ne other))) name_ne_slot
  | forget k =>
    refine ⟨rfl, view_congr (fun q => ?_) fun _ _ _ => rfl⟩
    show update s.slots (.inl k) none (.inr (j, q)) = _
    exact update_of_ne name_ne_slot ..

theorem Step.inv {mover : Option ι} (tidy : ∀ i, Tidy fresh (act i) (start i)) (inv : Inv fresh act start s)
    (step : Step fresh act s mover s') : Inv fresh act start s' := by
  have alone : ∀ j, Reaches fresh (act j) (start j, fun _ => none) (s'.pc j, s'.view j) := by
    intro j
    by_cases own : mover = some j
    · subst own
      exact (inv.alone j).tail (step.own inv)
    · rw [(step.other inv own).1, (step.other inv own).2]
      exact inv.alone j
  cases step with
  | @reuse i r next k o does held =>
    refine ⟨move_single inv.single held, fun x p heldX => ?_, fun m p heldM => ?_, alone⟩
    · rcases move_eq_some heldX with ⟨_, rfl⟩ | ⟨_, _, heldX⟩
      · exact inv.below _ _ held
      · exact inv.below _ _ heldX
    · have heldM : update (update s.slots (.inl k) none) (.inr (i, r)) (some o) (.inl m) = some p := heldM
      rcases move_eq_some heldM with ⟨absurd, _⟩ | ⟨_, _, heldM⟩
      · cases absurd
      · exact inv.clean _ _ heldM
  | @alloc i r next does =>
    have new : ∀ x, s.slots x ≠ some s.next := fun x held => Nat.lt_irrefl _ (inv.below x _ held)
    refine ⟨fun x y p heldX heldY => ?_, fun x p heldX => ?_, fun m p heldM => ?_, alone⟩
    · rcases fresh_eq_some heldX with ⟨hereX, sameX⟩ | ⟨_, heldX⟩
      · rcases fresh_eq_some heldY with ⟨hereY, _⟩ | ⟨_, heldY⟩
        · exact hereX.trans hereY.symm
        · exact absurd (sameX ▸ heldY) (new y)
      · rcases fresh_eq_some heldY with ⟨_, sameY⟩ | ⟨_, heldY⟩
        · exact absurd (sameY ▸ heldX) (new x)
        · exact inv.single x y p heldX heldY
    · rcases fresh_eq_some heldX with ⟨_, rfl⟩ | ⟨_, heldX⟩
      · exact Nat.lt_succ_self _
      · exact Nat.lt_succ_of_lt (inv.below _ _ heldX)
    · have heldM : update s.slots (.inr (i, r)) (some s.next) (.inl m) = some p := heldM
      rcases fresh_eq_some heldM with ⟨absurd, _⟩ | ⟨_, heldM⟩
      · cases absurd
      · exact (inv.alloc_other heldM).trans (inv.clean _ _ heldM)
  | read does => exact ⟨inv.single, inv.below, inv.clean, alone⟩
  | write does held =>
    refine ⟨inv.single, inv.below, fun m p heldM => ?_, alone⟩
    exact (inv.write_other held name_ne_slot.symm heldM).trans (inv.clean _ _ heldM)
  | @put i r next o k does held =>
    refine ⟨move_single inv.single held, fun x p heldX => ?_, fun m p heldM => ?_, alone⟩
    · rcases move_eq_some heldX with ⟨_, rfl⟩ | ⟨_, _, heldX⟩
      · exact inv.below _ _ held
      · exact inv.below _ _ heldX
    · have heldM : update (update s.slots (.inr (i, r)) none) (.inl k) (some o) (.inl m) = some p := heldM
      rcases move_eq_some heldM with ⟨_, rfl⟩ | ⟨_, _, heldM⟩
      · -- the client was tidy when it put the object back
        exact tidy i _ (inv.alone i) r next does _ (view_held held)
      · exact inv.clean _ _ heldM
  | forget k =>
    refine ⟨fun x y p heldX heldY => ?_, fun x p heldX => ?_, fun m p heldM => ?_, alone⟩
    · exact inv.single x y p (clear_eq_some heldX) (clear_eq_some heldY)
    · exact inv.below _ _ (clear_eq_some heldX)
    · exact inv.clean _ _ (clear_eq_some heldM)

/-! ### Runs -/

theorem Steps.refl (s : State ι ρ β ℓ) : Steps fresh act s s := Relation.ReflTransGen.refl

theorem Steps.go {s'' : State ι ρ β ℓ} {mover : Option ι} (steps : Steps fresh act s s')
    (step : Step fresh act s' mover s'') :
    Steps fresh act s s'' := Relation.ReflTransGen.tail steps ⟨mover, step⟩

/-- The rule for clients that share a pool: what holds of every client that is run alone holds in every
interleaving. -/
theorem Steps.inv (tidy : ∀ i, Tidy fresh (act i) (start i)) (inv : Inv fresh act start s)
    (steps : Steps fresh act s s') : Inv fresh act start s' := by
  induction steps with
  | refl => exact inv
  | tail _ step ih =>
    obtain ⟨_, step⟩ := step
    exact step.inv tidy ih

theorem Inv.advances {i : ι} {c : ℓ × View ρ β} (inv : Inv fresh act start s)
    (alone : Pool.alone fresh (act i) (s.pc i, s.view i) = some c) :
    ∃ s', Step fresh act s (some i) s' ∧ (s'.pc i, s'.view i) = c := by
  suffices h : ∃ s', Step fresh act s (some i) s' by
    obtain ⟨s', step⟩ := h
    exact ⟨s', step, Option.some.inj ((step.own inv).symm.trans alone)⟩
  have held : ∀ {r : ρ}, (s.view i r).isSome = true → ∃ o, s.slots (.inr (i, r)) = some o := by
    intro r some
    rw [State.view, Option.isSome_map] at some
    exact Option.isSome_iff_exists.mp some
  unfold Pool.alone at alone
  split at alone
  · rename_i does
    exact ⟨_, .alloc does⟩
  · rename_i does
    exact ⟨_, .read does⟩
  · rename_i does
    split at alone
    · rename_i some
      obtain ⟨o, held⟩ := held some
      exact ⟨_, .write does held⟩
    · cases alone
  · rename_i does
    split at alone
    · rename_i some
      obtain ⟨o, held⟩ := held some
      exact ⟨_, .put 0 does held⟩
    · cases alone
  · cases alone

/-- A client can go on to whatever it can reach alone, whatever the others have done before. -/
theorem Inv.goes_on {i : ι} {c : ℓ × View ρ β} (tidy : ∀ i, Tidy fresh (act i) (start i)) (inv : Inv fresh act start s)
    (reaches : Reaches fresh (act i) (s.pc i, s.view i) c) : ∃ s', Steps fresh act s s' ∧ (s'.pc i, s'.view i) = c := by
  induction reaches with
  | refl => exact ⟨s, Steps.refl s, rfl⟩
  | tail _ alone ih =>
    obtain ⟨s₁, steps, same⟩ := ih
    rw [← same] at alone
    obtain ⟨s₂, step, same⟩ := (steps.inv tidy inv).advances alone
    exact ⟨s₂, steps.go step, same⟩

end Pool
