import Mathlib.Data.List.Count
import Mathlib.Data.List.Forall2
import Mathlib.Data.Set.Basic

/-!
# Threshold selection over leapfrogging tapes

Several tapes hold entries that are grouped by a key. A group is *hit* when enough tapes hold
one of its entries and no tape holds a vetoing one. A scan advances the tapes and takes groups
as it goes; whether it takes exactly the hit groups depends only on what it may step over.

`Scan` is the invariant: whatever was taken is hit, and every other group is either still
untouched on every tape or known to be no hit and exhausted. `Scan.discard`, `Scan.take` and
`Scan.veto` are the three ways a round may step over entries, `Scan.exact` reads the result off
the final state.
-/

namespace Leapfrog

/-- What a tape held at the start and what is still ahead of its head. -/
structure Tape (ε : Type*) where
  all : Set ε
  rest : Set ε
  rest_subset : rest ⊆ all

/-- The key that groups entries and the entries that veto their group. -/
structure Grouping (ε γ : Type*) where
  key : ε → γ
  veto : ε → Prop

variable {ε γ : Type*} (G : Grouping ε γ)

def Grouping.Holds (c : γ) (t : Tape ε) : Prop := ∃ e ∈ t.all, G.key e = c

def Grouping.Ahead (c : γ) (t : Tape ε) : Prop := ∃ e ∈ t.rest, G.key e = c

variable {G}

theorem Grouping.Ahead.holds {c : γ} {t : Tape ε} (ahead : G.Ahead c t) : G.Holds c t := by
  obtain ⟨e, he, hk⟩ := ahead
  exact ⟨e, t.rest_subset he, hk⟩

variable (G)

open Classical in
/-- The number of tapes that satisfy `p`. -/
noncomputable def count (p : Tape ε → Prop) (ts : List (Tape ε)) : Nat := ts.countP (fun t => decide (p t))

theorem count_le_length (p : Tape ε → Prop) (ts : List (Tape ε)) : count p ts ≤ ts.length :=
  List.countP_le_length

theorem count_mono {p q : Tape ε → Prop} {ts : List (Tape ε)} (imp : ∀ t ∈ ts, p t → q t) :
    count p ts ≤ count q ts := by
  classical
  exact List.countP_mono_left (fun t ht h => by simpa using imp t ht (by simpa using h))

theorem count_append (p : Tape ε → Prop) (ts us : List (Tape ε)) :
    count p (ts ++ us) = count p ts + count p us := List.countP_append

theorem count_eq_length {p : Tape ε → Prop} {ts : List (Tape ε)} (every : ∀ t ∈ ts, p t) :
    count p ts = ts.length := by
  classical
  exact List.countP_eq_length.mpr (fun t ht => by simpa using every t ht)

theorem count_eq_zero {p : Tape ε → Prop} {ts : List (Tape ε)} (never : ∀ t ∈ ts, ¬ p t) : count p ts = 0 := by
  classical
  exact List.countP_eq_zero.mpr (fun t ht => by simpa using never t ht)

theorem exists_of_count_pos {p : Tape ε → Prop} {ts : List (Tape ε)} (some : 0 < count p ts) : ∃ t ∈ ts, p t := by
  by_contra none
  rw [count_eq_zero fun t ht holds => none ⟨t, ht, holds⟩] at some
  exact absurd some (lt_irrefl 0)

/-- Enough tapes hold an entry of the group and none of its entries vetoes it. -/
def Hit (need : γ → Nat) (ts : List (Tape ε)) (c : γ) : Prop :=
  need c ≤ count (G.Holds c) ts ∧ ∀ t ∈ ts, ∀ e ∈ t.all, G.key e = c → ¬ G.veto e

/-- No tape has stepped over an entry of the group. -/
def Fresh (ts : List (Tape ε)) (c : γ) : Prop := ∀ t ∈ ts, ∀ e ∈ t.all, G.key e = c → e ∈ t.rest

/-- No tape has an entry of the group ahead. -/
def Spent (ts : List (Tape ε)) (c : γ) : Prop := ∀ t ∈ ts, ¬ G.Ahead c t

/-- The scan invariant: what was taken is hit; any other group is untouched, or is no hit and spent. -/
structure Scan (need : γ → Nat) (ts : List (Tape ε)) (taken : Set γ) : Prop where
  sound : ∀ c ∈ taken, Hit G need ts c
  cover : ∀ c, c ∈ taken ∨ Fresh G ts c ∨ (¬ Hit G need ts c ∧ Spent G ts c)

/-- One tape moved forward: it holds the same entries and has no new ones ahead. -/
def Advanced (t u : Tape ε) : Prop := u.all = t.all ∧ u.rest ⊆ t.rest

variable {G} {need : γ → Nat} {ts us : List (Tape ε)} {taken : Set γ}

theorem fresh_count {c : γ} (fresh : Fresh G ts c) : count (G.Holds c) ts = count (G.Ahead c) ts := by
  apply Nat.le_antisymm
  · exact count_mono fun t ht ⟨e, he, hk⟩ => ⟨e, fresh t ht e he hk, hk⟩
  · exact count_mono fun t _ h => h.holds

theorem fresh_missed {c : γ} (fresh : Fresh G ts c) (positive : 0 < need c)
    (few : ¬ Spent G ts c → count (G.Ahead c) ts < need c) : ¬ Hit G need ts c := by
  intro hit
  have enough := hit.1
  rw [fresh_count fresh] at enough
  by_cases spent : Spent G ts c
  · have zero : count (G.Ahead c) ts = 0 := count_eq_zero spent
    omega
  · have := few spent
    omega

theorem Scan.start (ts : List (Tape ε)) (unread : ∀ t ∈ ts, t.rest = t.all) : Scan G need ts ∅ where
  sound := by simp
  cover c := Or.inr (Or.inl fun t ht e he _ => by rw [unread t ht]; exact he)

theorem hit_all {c : γ} (same : (ts.map Tape.all).Perm (us.map Tape.all)) : Hit G need ts c ↔ Hit G need us c := by
  classical
  have counts : ∀ vs : List (Tape ε),
      count (G.Holds c) vs = (vs.map Tape.all).countP (fun all => decide (∃ e ∈ all, G.key e = c)) := by
    intro vs
    rw [List.countP_map]
    rfl
  have vetoes : ∀ vs : List (Tape ε), (∀ t ∈ vs, ∀ e ∈ t.all, G.key e = c → ¬ G.veto e) ↔
      (∀ all ∈ vs.map Tape.all, ∀ e ∈ all, G.key e = c → ¬ G.veto e) := by simp
  rw [Hit, Hit, counts, counts, same.countP_eq, vetoes, vetoes]
  simp only [same.mem_iff]

theorem hit_perm {c : γ} (perm : ts.Perm us) : Hit G need ts c ↔ Hit G need us c := hit_all (perm.map _)

theorem Scan.perm (scan : Scan G need ts taken) (perm : ts.Perm us) : Scan G need us taken where
  sound c hc := (hit_perm perm).mp (scan.sound c hc)
  cover c := by
    rcases scan.cover c with hc | fresh | ⟨no, spent⟩
    · exact Or.inl hc
    · exact Or.inr (Or.inl fun t ht => fresh t (perm.mem_iff.mpr ht))
    · exact Or.inr (Or.inr ⟨fun h => no ((hit_perm perm).mpr h), fun t ht => spent t (perm.mem_iff.mpr ht)⟩)

/-! ### Moving the tapes forward -/

theorem hit_advanced {c : γ} (step : List.Forall₂ Advanced ts us) : Hit G need ts c ↔ Hit G need us c := by
  have same : ts.map Tape.all = us.map Tape.all := by
    induction step with
    | nil => rfl
    | cons head _ ih => rw [List.map_cons, List.map_cons, head.1, ih]
  exact hit_all (same ▸ List.Perm.refl _)

theorem advanced_mem {u : Tape ε} (step : List.Forall₂ Advanced ts us) (hu : u ∈ us) :
    ∃ t ∈ ts, Advanced t u := by
  induction step with
  | nil => simp at hu
  | cons head _ ih =>
    rcases List.mem_cons.mp hu with rfl | later
    · exact ⟨_, List.mem_cons_self, head⟩
    · obtain ⟨t, ht, adv⟩ := ih later
      exact ⟨t, List.mem_cons_of_mem _ ht, adv⟩

theorem spent_advanced {c : γ} (step : List.Forall₂ Advanced ts us) (spent : Spent G ts c) : Spent G us c := by
  rintro u hu ⟨e, he, hk⟩
  obtain ⟨t, ht, adv⟩ := advanced_mem step hu
  exact spent t ht ⟨e, adv.2 he, hk⟩

theorem missed_advanced {c : γ} (step : List.Forall₂ Advanced ts us) (missed : ¬ Hit G need ts c ∧ Spent G ts c) :
    ¬ Hit G need us c ∧ Spent G us c := by
  refine ⟨?_, spent_advanced step missed.2⟩
  rw [← hit_advanced step]
  exact missed.1

theorem count_perm (p : Tape ε → Prop) (perm : ts.Perm us) : count p ts = count p us := perm.countP_eq _

theorem count_sublist (p : Tape ε → Prop) (sub : ts.Sublist us) : count p ts ≤ count p us := sub.countP_le

theorem count_ahead_advanced (c : γ) (step : List.Forall₂ Advanced ts us) :
    count (G.Ahead c) us ≤ count (G.Ahead c) ts := by
  classical
  induction step with
  | nil => exact le_rfl
  | @cons t u ts us head _ ih =>
    have here : G.Ahead c u → G.Ahead c t := fun ⟨e, he, hk⟩ => ⟨e, head.2 he, hk⟩
    simp only [count, List.countP_cons] at ih ⊢
    by_cases ahead : G.Ahead c u
    · simp only [ahead, here ahead, decide_true, if_true]
      omega
    · simp only [ahead, decide_false, Bool.false_eq_true, if_false]
      omega

/-- One tape moved forward over entries of `lost` groups only. -/
def Skipped (G : Grouping ε γ) (lost : γ → Prop) (t u : Tape ε) : Prop :=
  Advanced t u ∧ ∀ e ∈ t.rest, ¬ lost (G.key e) → e ∈ u.rest

theorem Skipped.refl (lost : γ → Prop) (t : Tape ε) : Skipped G lost t t :=
  ⟨⟨rfl, subset_rfl⟩, fun _ he _ => he⟩

theorem forall₂_skipped_trans {lost : γ → Prop} {vs : List (Tape ε)} (first : List.Forall₂ (Skipped G lost) ts us)
    (second : List.Forall₂ (Skipped G lost) us vs) : List.Forall₂ (Skipped G lost) ts vs := by
  induction first generalizing vs with
  | nil => exact second
  | cons head _ ih =>
    cases second with
    | cons head' tail' =>
      refine List.Forall₂.cons ⟨⟨head'.1.1.trans head.1.1, head'.1.2.trans head.1.2⟩, ?_⟩ (ih tail')
      exact fun e he stays => head'.2 e (head.2 e he stays) stays

theorem forall₂_advanced {lost : γ → Prop} (step : List.Forall₂ (Skipped G lost) ts us) :
    List.Forall₂ Advanced ts us := step.imp fun _ _ h => h.1

theorem fresh_skipped {lost : γ → Prop} {c : γ} (step : List.Forall₂ (Skipped G lost) ts us)
    (kept : ¬ lost c) (fresh : Fresh G ts c) : Fresh G us c := by
  induction step with
  | nil => simp [Fresh]
  | cons head _ ih =>
    simp only [Fresh, List.forall_mem_cons] at fresh ⊢
    refine ⟨fun e he hk => ?_, ih fresh.2⟩
    exact head.2 e (fresh.1 e (head.1.1 ▸ he) hk) (hk ▸ kept)

/-- A round may step over groups that too few tapes still have ahead, if it exhausts them. -/
theorem Scan.discard {lost : γ → Prop} (scan : Scan G need ts taken)
    (step : List.Forall₂ (Skipped G lost) ts us)
    (few : ∀ c, lost c → ¬ Spent G ts c → count (G.Ahead c) ts < need c)
    (positive : ∀ c, 0 < need c) (gone : ∀ c, lost c → Spent G us c) : Scan G need us taken where
  sound c hc := (hit_advanced (forall₂_advanced step)).mp (scan.sound c hc)
  cover c := by
    rcases scan.cover c with hc | fresh | missed
    · exact Or.inl hc
    · by_cases h : lost c
      · refine Or.inr (Or.inr ⟨?_, gone c h⟩)
        rw [← hit_advanced (forall₂_advanced step)]
        exact fresh_missed fresh (positive c) (few c h)
      · exact Or.inr (Or.inl (fresh_skipped step h fresh))
    · exact Or.inr (Or.inr (missed_advanced (forall₂_advanced step) missed))

/-- A round may take a group that enough tapes have ahead while no veto of it is ahead. -/
theorem Scan.take {c₀ : γ} (scan : Scan G need ts taken)
    (step : List.Forall₂ (Skipped G (· = c₀)) ts us)
    (positive : 0 < need c₀) (enough : need c₀ ≤ count (G.Ahead c₀) ts)
    (noVeto : ∀ t ∈ ts, ∀ e ∈ t.rest, G.key e = c₀ → ¬ G.veto e) : Scan G need us (insert c₀ taken) where
  sound c hc := by
    rw [← hit_advanced (forall₂_advanced step)]
    rcases hc with rfl | hc
    · rcases scan.cover c with hc | fresh | ⟨_, spent⟩
      · exact scan.sound c hc
      · exact ⟨fresh_count fresh ▸ enough, fun t ht e he hk => noVeto t ht e (fresh t ht e he hk) hk⟩
      · have zero : count (G.Ahead c) ts = 0 := count_eq_zero spent
        omega
    · exact scan.sound c hc
  cover c := by
    by_cases same : c = c₀
    · exact Or.inl (Or.inl same)
    · rcases scan.cover c with hc | fresh | missed
      · exact Or.inl (Or.inr hc)
      · exact Or.inr (Or.inl (fresh_skipped step same fresh))
      · exact Or.inr (Or.inr (missed_advanced (forall₂_advanced step) missed))

/-- A round that sees a veto of a group ahead may step over all of the group. -/
theorem Scan.veto {c₀ : γ} (scan : Scan G need ts taken)
    (step : List.Forall₂ (Skipped G (· = c₀)) ts us)
    (seen : ∃ t ∈ ts, ∃ e ∈ t.rest, G.key e = c₀ ∧ G.veto e) (gone : Spent G us c₀) : Scan G need us taken where
  sound c hc := (hit_advanced (forall₂_advanced step)).mp (scan.sound c hc)
  cover c := by
    by_cases same : c = c₀
    · subst same
      obtain ⟨t, ht, e, he, hk, hv⟩ := seen
      refine Or.inr (Or.inr ⟨fun hit => ?_, gone⟩)
      exact ((hit_advanced (forall₂_advanced step)).mpr hit).2 t ht e (t.rest_subset he) hk hv
    · rcases scan.cover c with hc | fresh | missed
      · exact Or.inl hc
      · exact Or.inr (Or.inl (fresh_skipped step same fresh))
      · exact Or.inr (Or.inr (missed_advanced (forall₂_advanced step) missed))

/-- When no group has enough tapes ahead any more, the taken groups are exactly the hit ones. -/
theorem Scan.exact (scan : Scan G need ts taken) (positive : ∀ c, 0 < need c)
    (done : ∀ c, ¬ Spent G ts c → count (G.Ahead c) ts < need c) (c : γ) : c ∈ taken ↔ Hit G need ts c := by
  refine ⟨scan.sound c, fun hit => ?_⟩
  rcases scan.cover c with hc | fresh | ⟨no, _⟩
  · exact hc
  · exact absurd hit (fresh_missed fresh (positive c) (done c))
  · exact absurd hit no

/-! ### Tapes that hold given sets -/

/-- A tape of which nothing has been read. -/
def Tape.unread (s : Set ε) : Tape ε := ⟨s, s, subset_rfl⟩

/-- One tape that holds the set, or no tape if it is empty. -/
def Carries (s : Set ε) (ts : List (Tape ε)) : Prop := (ts = [] ∧ s = ∅) ∨ ∃ t, ts = [t] ∧ t.all = s

theorem Carries.holds {s : Set ε} (carries : Carries s ts) (c : γ) :
    count (G.Holds c) ts = count (G.Holds c) [Tape.unread s] := by
  rcases carries with ⟨rfl, rfl⟩ | ⟨t, rfl, rfl⟩
  · symm
    refine count_eq_zero fun t mem ⟨e, he, _⟩ => ?_
    rw [List.mem_singleton.mp mem] at he
    exact absurd he (Set.notMem_empty e)
  · rfl

theorem Carries.mem_all {s : Set ε} (carries : Carries s ts) {e : ε} : (∃ t ∈ ts, e ∈ t.all) ↔ e ∈ s := by
  rcases carries with ⟨rfl, rfl⟩ | ⟨t, rfl, rfl⟩
  · simp
  · simp

theorem hit_carried {sets : List (Set ε)} {groups : List (List (Tape ε))} (each : List.Forall₂ Carries sets groups)
    (c : γ) : Hit G need groups.flatten c ↔ Hit G need (sets.map Tape.unread) c := by
  have counts : count (G.Holds c) groups.flatten = count (G.Holds c) (sets.map Tape.unread) := by
    induction each with
    | nil => rfl
    | @cons s ts sets groups head _ ih =>
      have split : (s :: sets).map Tape.unread = [Tape.unread s] ++ sets.map Tape.unread := rfl
      rw [List.flatten_cons, count_append, ih, head.holds, split, count_append]
  have members : ∀ e, (∃ t ∈ groups.flatten, e ∈ t.all) ↔ ∃ t ∈ sets.map Tape.unread, e ∈ t.all := by
    intro e
    clear counts
    induction each with
    | nil => simp
    | cons head _ ih =>
      simp only [List.flatten_cons, List.mem_append, List.map_cons, List.mem_cons, or_and_right, exists_or,
        exists_eq_left, ih, head.mem_all, Tape.unread]
  rw [Hit, Hit, counts]
  refine and_congr_right fun _ => ⟨fun all t ht e he => ?_, fun all t ht e he => ?_⟩
  · obtain ⟨u, hu, hold⟩ := (members e).mpr ⟨t, ht, he⟩
    exact all u hu e hold
  · obtain ⟨u, hu, hold⟩ := (members e).mp ⟨t, ht, he⟩
    exact all u hu e hold

end Leapfrog
