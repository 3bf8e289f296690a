import Mathlib.Data.List.Infix
import Mathlib.Data.List.Perm.Basic
import Mathlib.Data.Nat.Digits.Lemmas

/-!
# Words

A list of letters read as a numeral, and as a text that was joined from parts. Numerals of different
lengths denote the same number when they differ by leading zeros only; a word without the separator
occurs in a joined text when it occurs in one of the parts. Words joined without a separator: the order
does not show if they commute, and the words themselves can be read off if none begins another.
-/

namespace Word

/-- The number of a numeral in base `b`, its most significant digit first. -/
def value (b : Nat) (digits : List Nat) : Nat := Nat.ofDigits b digits.reverse

theorem value_zeros (b k : Nat) (digits : List Nat) : value b (List.replicate k 0 ++ digits) = value b digits := by
  rw [value, List.reverse_append, List.reverse_replicate, Nat.ofDigits_append_replicate_zero, value]

theorem value_lt {b : Nat} (hb : 1 < b) {digits : List Nat} (small : ∀ d ∈ digits, d < b) :
    value b digits < b ^ digits.length := by
  rw [← List.length_reverse, value]
  exact Nat.ofDigits_lt_base_pow_length hb fun d mem => small d (List.mem_reverse.mp mem)

section Numerals

variable {b : Nat} {xs ys : List Nat}

theorem value_inj_of_length_le (hb : 1 < b) (hx : ∀ d ∈ xs, d < b) (hy : ∀ d ∈ ys, d < b)
    (le : ys.length ≤ xs.length) (same : value b xs = value b ys) :
    xs = List.replicate (xs.length - ys.length) 0 ++ ys := by
  rw [← value_zeros b (xs.length - ys.length) ys] at same
  apply List.reverse_injective
  refine Nat.ofDigits_inj_of_len_eq hb ?_ ?_ ?_ same
  · simp only [List.length_reverse, List.length_append, List.length_replicate]
    omega
  · exact fun d mem => hx d (List.mem_reverse.mp mem)
  · intro d mem
    rcases List.mem_append.mp (List.mem_reverse.mp mem) with zero | mem
    · rw [List.eq_of_mem_replicate zero]
      omega
    · exact hy d mem

theorem value_eq_iff (hb : 1 < b) (hx : ∀ d ∈ xs, d < b) (hy : ∀ d ∈ ys, d < b) :
    value b xs = value b ys ↔ ∃ k, xs = List.replicate k 0 ++ ys ∨ ys = List.replicate k 0 ++ xs := by
  constructor
  · intro same
    rcases Nat.le_total ys.length xs.length with le | le
    · exact ⟨_, Or.inl (value_inj_of_length_le hb hx hy le same)⟩
    · exact ⟨_, Or.inr (value_inj_of_length_le hb hy hx le same.symm)⟩
  · intro ⟨k, padded⟩
    rcases padded with padded | padded
    · rw [padded, value_zeros]
    · rw [padded, value_zeros]

end Numerals

section Joins

variable {α : Type*} {w : List α} {sep : α}

theorem not_prefix_sep (nonempty : w ≠ []) (clean : sep ∉ w) (text : List α) : ¬ w <+: sep :: text := by
  intro starts
  cases w with
  | nil => exact nonempty rfl
  | cons a w =>
    obtain ⟨rfl, _⟩ := List.cons_prefix_cons.mp starts
    exact clean List.mem_cons_self

theorem infix_join_iff (nonempty : w ≠ []) (clean : sep ∉ w) (parts : List (List α)) :
    w <:+: (parts.intersperse [sep]).flatten ↔ ∃ part ∈ parts, w <:+: part := by
  induction parts with
  | nil => simpa using nonempty
  | cons part parts ih =>
    cases parts with
    | nil => simp
    | cons next parts =>
      have split : ((part :: next :: parts).intersperse [sep]).flatten =
          part ++ sep :: ((next :: parts).intersperse [sep]).flatten := by
        simp [List.intersperse_cons_cons]
      rw [List.exists_mem_cons_iff, split, List.infix_append_iff, List.infix_cons_iff, ih]
      constructor
      · intro occurs
        rcases occurs with inPart | (starts | later) | ⟨w₁, w₂, rfl, ends, starts⟩
        · exact Or.inl inPart
        · exact absurd starts (not_prefix_sep nonempty clean _)
        · exact Or.inr later
        · -- what sticks out of the part would start with the separator
          by_cases nothing : w₂ = []
          · subst nothing
            rw [List.append_nil]
            exact Or.inl ends.isInfix
          · exact absurd starts (not_prefix_sep nothing (fun mem => clean (List.mem_append_right _ mem)) _)
      · intro occurs
        rcases occurs with inPart | later
        · exact Or.inl inPart
        · exact Or.inr (Or.inl (Or.inr later))

end Joins

section Concatenations

variable {α : Type*}

/-- Two words that give the same word whichever comes first. -/
def Commutes (u v : List α) : Prop := u ++ v = v ++ u

/-- Joining does not depend on the order exactly for words that commute pairwise. -/
theorem flatten_perm_iff {ws : List (List α)} :
    (∀ l : List (List α), l.Perm ws → l.flatten = ws.flatten) ↔ ws.Pairwise Commutes := by
  constructor
  · intro same
    rw [List.pairwise_iff_forall_sublist]
    intro u v sub
    obtain ⟨rest, perm⟩ := sub.exists_perm_append
    have first := same _ perm.symm
    have second := same _ ((List.Perm.swap u v rest).trans perm.symm)
    have joined : u ++ v ++ rest.flatten = v ++ u ++ rest.flatten := by
      simpa using first.trans second.symm
    exact List.append_cancel_right joined
  · intro commute l perm
    have symm : Std.Symm (Commutes (α := α)) := ⟨fun _ _ h => h.symm⟩
    have each : ∀ u ∈ ws, ∀ v ∈ ws, Commutes u v := fun u hu v hv =>
      List.Pairwise.forall_of_forall (fun w _ => (rfl : Commutes w w)) commute hu hv
    have joins : ∀ l : List (List α), l.flatten = l.foldr (· ++ ·) [] := by
      intro l
      induction l with
      | nil => rfl
      | cons w l ih => rw [List.flatten_cons, List.foldr_cons, ih]
    rw [joins l, joins ws]
    refine perm.foldr_eq' (fun u hu v hv rest => ?_) []
    rw [← List.append_assoc, ← List.append_assoc, each v (perm.mem_iff.mp hv) u (perm.mem_iff.mp hu)]

/-- No word is empty, and none is the beginning of another. -/
def PrefixCode (ws : List (List α)) : Prop := [] ∉ ws ∧ ∀ u ∈ ws, ∀ v ∈ ws, u <+: v → u = v

instance [DecidableEq α] (ws : List (List α)) : Decidable (PrefixCode ws) := inferInstanceAs (Decidable (_ ∧ _))

namespace PrefixCode

variable {ws l₁ l₂ : List (List α)}

theorem eq_of_append {u v r₁ r₂ : List α} (code : PrefixCode ws) (hu : u ∈ ws) (hv : v ∈ ws)
    (same : u ++ r₁ = v ++ r₂) : u = v := by
  have before : u <+: v ++ r₂ := same ▸ List.prefix_append u r₁
  rcases List.prefix_or_prefix_of_prefix before (List.prefix_append v r₂) with begins | begins
  · exact code.2 u hu v hv begins
  · exact (code.2 v hv u hu begins).symm

theorem flatten_ne_nil {w : List α} {l : List (List α)} (code : PrefixCode ws) (hw : w ∈ ws) :
    (w :: l).flatten ≠ [] := by
  intro none
  obtain ⟨rfl, _⟩ := List.append_eq_nil_iff.mp none
  exact code.1 hw

/-- The words that were joined can be read off the text. -/
theorem flatten_inj (code : PrefixCode ws) (h₁ : ∀ w ∈ l₁, w ∈ ws) (h₂ : ∀ w ∈ l₂, w ∈ ws)
    (joined : l₁.flatten = l₂.flatten) : l₁ = l₂ := by
  induction l₁ generalizing l₂ with
  | nil =>
    cases l₂ with
    | nil => rfl
    | cons v l₂ => exact absurd joined.symm (code.flatten_ne_nil (h₂ v List.mem_cons_self))
  | cons u l₁ ih =>
    cases l₂ with
    | nil => exact absurd joined (code.flatten_ne_nil (h₁ u List.mem_cons_self))
    | cons v l₂ =>
      obtain ⟨hu, later₁⟩ := List.forall_mem_cons.mp h₁
      obtain ⟨hv, later₂⟩ := List.forall_mem_cons.mp h₂
      rw [List.flatten_cons, List.flatten_cons] at joined
      obtain rfl := code.eq_of_append hu hv joined
      rw [ih later₁ later₂ (List.append_cancel_left joined)]

end PrefixCode

end Concatenations

end Word
