import BeIndexer.Holder.Keyword

/-!
# Strings and runes

Go's conversions between strings and runes undo each other on valid UTF-8 only: an invalid byte
becomes U+FFFD, which is written back as three bytes.
-/

namespace BeIndexer

/-- A value that UTF-8 can encode. -/
def IsScalar (r : Nat) : Prop := r ≤ 0x10FFFF ∧ ¬ (0xD800 ≤ r ∧ r ≤ 0xDFFF)

instance : DecidablePred IsScalar := fun _ => inferInstanceAs (Decidable (_ ∧ _))

theorem inRange_iff {lo hi b : UInt8} : inRange lo hi b = true ↔ lo.toNat ≤ b.toNat ∧ b.toNat ≤ hi.toNat := by
  rw [inRange, Bool.and_eq_true, decide_eq_true_iff, decide_eq_true_iff, UInt8.le_iff_toNat_le, UInt8.le_iff_toNat_le]

theorem byte_toNat {n : Nat} (lt : n < 256) : n.toUInt8.toNat = n := by
  simp [Nat.toUInt8, Nat.mod_eq_of_lt lt]

/-! ### One rune -/

theorem sequenceOf_eq (b : UInt8) :
    sequenceOf b =
      if b.toNat < 0xC2 then none
      else if b.toNat ≤ 0xDF then some (2, 0x80, 0xBF)
      else if b.toNat ≤ 0xEF then some (3, if b.toNat = 0xE0 then 0xA0 else 0x80, if b.toNat = 0xED then 0x9F else 0xBF)
      else if b.toNat ≤ 0xF4 then some (4, if b.toNat = 0xF0 then 0x90 else 0x80, if b.toNat = 0xF4 then 0x8F else 0xBF)
      else none := by
  have table : ∀ n : Fin 256, sequenceOf (UInt8.ofNat n) =
      if n.val < 0xC2 then none
      else if n.val ≤ 0xDF then some (2, 0x80, 0xBF)
      else if n.val ≤ 0xEF then some (3, if n.val = 0xE0 then 0xA0 else 0x80, if n.val = 0xED then 0x9F else 0xBF)
      else if n.val ≤ 0xF4 then some (4, if n.val = 0xF0 then 0x90 else 0x80, if n.val = 0xF4 then 0x8F else 0xBF)
      else none := by
    decide +kernel
  have entry := table ⟨b.toNat, b.toNat_lt⟩
  rwa [UInt8.ofNat_toNat] at entry

theorem continuation_iff {c : UInt8} : inRange 0x80 0xBF c = true ↔ 0x80 ≤ c.toNat ∧ c.toNat ≤ 0xBF := inRange_iff

section Sequences

variable {b : UInt8}

theorem sequenceOf_two (lo : 0xC2 ≤ b.toNat) (hi : b.toNat ≤ 0xDF) : sequenceOf b = some (2, 0x80, 0xBF) := by
  rw [sequenceOf_eq, if_neg (by omega), if_pos hi]

theorem sequenceOf_three (lo : 0xE0 ≤ b.toNat) (hi : b.toNat ≤ 0xEF) :
    ∃ l h, sequenceOf b = some (3, l, h) ∧ ∀ c, inRange l h c = true ↔ (0x80 ≤ c.toNat ∧ c.toNat ≤ 0xBF) ∧
      (b.toNat = 0xE0 → 0xA0 ≤ c.toNat) ∧ (b.toNat = 0xED → c.toNat ≤ 0x9F) := by
  rw [sequenceOf_eq, if_neg (by omega), if_neg (by omega), if_pos hi]
  refine ⟨_, _, rfl, fun c => ?_⟩
  rw [inRange_iff, apply_ite UInt8.toNat, apply_ite UInt8.toNat]
  simp only [UInt8.reduceToNat]
  split <;> split <;> omega

theorem sequenceOf_four (lo : 0xF0 ≤ b.toNat) (hi : b.toNat ≤ 0xF4) :
    ∃ l h, sequenceOf b = some (4, l, h) ∧ ∀ c, inRange l h c = true ↔ (0x80 ≤ c.toNat ∧ c.toNat ≤ 0xBF) ∧
      (b.toNat = 0xF0 → 0x90 ≤ c.toNat) ∧ (b.toNat = 0xF4 → c.toNat ≤ 0x8F) := by
  rw [sequenceOf_eq, if_neg (by omega), if_neg (by omega), if_neg (by omega), if_pos hi]
  refine ⟨_, _, rfl, fun c => ?_⟩
  rw [inRange_iff, apply_ite UInt8.toNat, apply_ite UInt8.toNat]
  simp only [UInt8.reduceToNat]
  split <;> split <;> omega

theorem sequenceOf_none (other : b.toNat < 0xC2 ∨ 0xF4 < b.toNat) : sequenceOf b = none := by
  rw [sequenceOf_eq]
  rcases other with low | high
  · rw [if_pos low]
  · rw [if_neg (by omega), if_neg (by omega), if_neg (by omega), if_neg (by omega)]

end Sequences

theorem encodeRune_eq {r : Nat} (scalar : IsScalar r) :
    encodeRune r =
      if r < 0x80 then [r.toUInt8]
      else if r < 0x800 then [(0xC0 + r / 64).toUInt8, (0x80 + r % 64).toUInt8]
      else if r < 0x10000 then [(0xE0 + r / 4096).toUInt8, (0x80 + r / 64 % 64).toUInt8, (0x80 + r % 64).toUInt8]
      else [(0xF0 + r / 262144).toUInt8, (0x80 + r / 4096 % 64).toUInt8, (0x80 + r / 64 % 64).toUInt8,
        (0x80 + r % 64).toUInt8] := by
  obtain ⟨top, surrogate⟩ := scalar
  have kept : (if (decide (0x10FFFF < r) ||
    (decide (0xD800 ≤ r) && decide (r ≤ 0xDFFF))) = true then runeError else r) =
      r := by
    apply if_neg
    simp only [Bool.or_eq_true, Bool.and_eq_true, decide_eq_true_eq]
    omega
  unfold encodeRune
  simp only [kept]

/-- `decodeRune` past the first byte, once the length of the sequence is known. -/
theorem decodeRune_two {b b₁ : UInt8} {lo hi : UInt8} (high : 0x80 ≤ b.toNat) (seq : sequenceOf b = some (2, lo, hi))
    (h₁ : inRange lo hi b₁ = true) (s : GoString) :
    decodeRune b (b₁ :: s) = ((b.toNat % 32) * 64 + b₁.toNat % 64, 1) := by
  unfold decodeRune
  rw [if_neg (by rw [UInt8.lt_iff_toNat_lt]; exact Nat.not_lt.mpr high), seq]
  exact if_pos h₁

theorem decodeRune_three {b b₁ b₂ : UInt8} {lo hi : UInt8} (high : 0x80 ≤ b.toNat)
    (seq : sequenceOf b = some (3, lo, hi)) (h₁ : inRange lo hi b₁ = true) (h₂ : inRange 0x80 0xBF b₂ = true)
    (s : GoString) :
    decodeRune b (b₁ :: b₂ :: s) = ((b.toNat % 16) * 4096 + (b₁.toNat % 64) * 64 + b₂.toNat % 64, 2) := by
  unfold decodeRune
  rw [if_neg (by rw [UInt8.lt_iff_toNat_lt]; exact Nat.not_lt.mpr high), seq]
  exact if_pos (by rw [h₁, h₂]; rfl)

theorem decodeRune_four {b b₁ b₂ b₃ : UInt8} {lo hi : UInt8} (high : 0x80 ≤ b.toNat)
    (seq : sequenceOf b = some (4, lo, hi)) (h₁ : inRange lo hi b₁ = true) (h₂ : inRange 0x80 0xBF b₂ = true)
    (h₃ : inRange 0x80 0xBF b₃ = true) (s : GoString) :
    decodeRune b (b₁ :: b₂ :: b₃ :: s) =
      ((b.toNat % 8) * 262144 + (b₁.toNat % 64) * 4096 + (b₂.toNat % 64) * 64 + b₃.toNat % 64, 3) := by
  unfold decodeRune
  rw [if_neg (by rw [UInt8.lt_iff_toNat_lt]; exact Nat.not_lt.mpr high), seq]
  exact if_pos (by rw [h₁, h₂, h₃]; rfl)

theorem decodeRune_encodeRune {r : Nat} (scalar : IsScalar r) :
    ∃ b tail, encodeRune r = b :: tail ∧ ∀ s, decodeRune b (tail ++ s) = (r, tail.length) := by
  rw [encodeRune_eq scalar]
  obtain ⟨top, surrogate⟩ := scalar
  split
  · rename_i one
    have first := byte_toNat (n := r) (by omega)
    refine ⟨_, _, rfl, fun s => ?_⟩
    unfold decodeRune
    rw [if_pos (by rw [UInt8.lt_iff_toNat_lt, first]; exact one), first]
    rfl
  split
  · have first := byte_toNat (n := 0xC0 + r / 64) (by omega)
    have second := byte_toNat (n := 0x80 + r % 64) (by omega)
    have seq := sequenceOf_two (b := (0xC0 + r / 64).toUInt8) (by omega) (by omega)
    refine ⟨_, _, rfl, fun s => ?_⟩
    refine (decodeRune_two (by omega) seq (continuation_iff.mpr (by omega)) s).trans ?_
    rw [first, second]
    exact Prod.ext (by dsimp only; omega) rfl
  split
  · have first := byte_toNat (n := 0xE0 + r / 4096) (by omega)
    have second := byte_toNat (n := 0x80 + r / 64 % 64) (by omega)
    have third := byte_toNat (n := 0x80 + r % 64) (by omega)
    obtain ⟨l, h, seq, range⟩ := sequenceOf_three (b := (0xE0 + r / 4096).toUInt8) (by omega) (by omega)
    refine ⟨_, _, rfl, fun s => ?_⟩
    refine (decodeRune_three (by omega) seq ((range _).mpr (by omega)) (continuation_iff.mpr (by omega)) s).trans ?_
    rw [first, second, third]
    exact Prod.ext (by dsimp only; omega) rfl
  · have first := byte_toNat (n := 0xF0 + r / 262144) (by omega)
    have second := byte_toNat (n := 0x80 + r / 4096 % 64) (by omega)
    have third := byte_toNat (n := 0x80 + r / 64 % 64) (by omega)
    have fourth := byte_toNat (n := 0x80 + r % 64) (by omega)
    obtain ⟨l, h, seq, range⟩ := sequenceOf_four (b := (0xF0 + r / 262144).toUInt8) (by omega) (by omega)
    refine ⟨_, _, rfl, fun s => ?_⟩
    refine (decodeRune_four (by omega) seq ((range _).mpr (by omega)) (continuation_iff.mpr (by omega))
      (continuation_iff.mpr (by omega)) s).trans ?_
    rw [first, second, third, fourth]
    exact Prod.ext (by dsimp only; omega) rfl

def Continues (c : UInt8) : Prop := 0x80 ≤ c.toNat ∧ c.toNat ≤ 0xBF

instance : DecidablePred Continues := fun _ => inferInstanceAs (Decidable (_ ∧ _))

/-- Only an ASCII byte stands alone, and only the first byte of a sequence does not continue one. -/
theorem encodeRune_bytes {r : Nat} {b : UInt8} {tail : GoString} (scalar : IsScalar r) (h : encodeRune r = b :: tail) :
    ¬ Continues b ∧ (∀ c ∈ tail, Continues c) ∧ (tail = [] → b.toNat < 0x80) := by
  have last : ∀ n : Nat, Continues (0x80 + n % 64).toUInt8 := by
    intro n
    rw [Continues, byte_toNat (by omega)]
    omega
  have lead : ∀ n : Nat, 0xC0 ≤ n → n < 256 → ¬ Continues n.toUInt8 := by
    intro n lo lt
    rw [Continues, byte_toNat lt]
    omega
  rw [encodeRune_eq scalar] at h
  obtain ⟨top, _⟩ := scalar
  split at h
  · obtain ⟨rfl, rfl⟩ := List.cons.inj h
    rw [Continues, byte_toNat (by omega)]
    exact ⟨by omega, by simp, by omega⟩
  split at h
  · obtain ⟨rfl, rfl⟩ := List.cons.inj h
    exact ⟨lead _ (by omega) (by omega), List.forall_mem_singleton.mpr (last _), by simp⟩
  split at h
  · obtain ⟨rfl, rfl⟩ := List.cons.inj h
    refine ⟨lead _ (by omega) (by omega), List.forall_mem_cons.mpr ⟨last _, ?_⟩, by simp⟩
    exact List.forall_mem_singleton.mpr (last _)
  · obtain ⟨rfl, rfl⟩ := List.cons.inj h
    refine ⟨lead _ (by omega) (by omega), List.forall_mem_cons.mpr ⟨last _, List.forall_mem_cons.mpr ⟨last _, ?_⟩⟩,
      by simp⟩
    exact List.forall_mem_singleton.mpr (last _)

theorem toUInt8_eq {n : Nat} {b : UInt8} (h : n = b.toNat) : n.toUInt8 = b := by
  rw [h]
  exact UInt8.ofNat_toNat

/-- Decoding either takes one byte for invalid, or takes the encoding of what it returns. -/
def DecodesAt (b : UInt8) (rest : GoString) : Prop :=
  decodeRune b rest = (runeError, 0) ∨
    ∃ r n, decodeRune b rest = (r, n) ∧ IsScalar r ∧ n ≤ rest.length ∧ encodeRune r = b :: rest.take n

section Decoding

variable {b : UInt8} {rest : GoString}

theorem decodesAt_two (lo : 0xC2 ≤ b.toNat) (hi : b.toNat ≤ 0xDF) : DecodesAt b rest := by
  have high : ¬ b < 0x80 := fun lt => absurd (UInt8.lt_iff_toNat_lt.mp lt) (by simp; omega)
  have seq := sequenceOf_two lo hi
  match rest with
  | [] =>
    left
    unfold decodeRune
    rw [if_neg high, seq]
    rfl
  | b₁ :: s =>
    by_cases h₁ : inRange 0x80 0xBF b₁ = true
    · have range := continuation_iff.mp h₁
      have scalar : IsScalar (b.toNat % 32 * 64 + b₁.toNat % 64) := ⟨by omega, by omega⟩
      refine Or.inr ⟨_, 1, decodeRune_two (by omega) seq h₁ s, scalar, by simp, ?_⟩
      rw [encodeRune_eq scalar, if_neg (by omega), if_pos (by omega), toUInt8_eq (b := b) (by omega),
        toUInt8_eq (b := b₁) (by omega)]
      rfl
    · left
      unfold decodeRune
      rw [if_neg high, seq]
      exact if_neg h₁

theorem decodesAt_three (lo : 0xE0 ≤ b.toNat) (hi : b.toNat ≤ 0xEF) : DecodesAt b rest := by
  have high : ¬ b < 0x80 := fun lt => absurd (UInt8.lt_iff_toNat_lt.mp lt) (by simp; omega)
  obtain ⟨l, h, seq, second⟩ := sequenceOf_three lo hi
  match rest with
  | [] | [_] =>
    left
    unfold decodeRune
    rw [if_neg high, seq]
    rfl
  | b₁ :: b₂ :: s =>
    by_cases valid : (inRange l h b₁ && inRange 0x80 0xBF b₂) = true
    · obtain ⟨h₁, h₂⟩ := Bool.and_eq_true_iff.mp valid
      have range := (second b₁).mp h₁
      have range₂ := continuation_iff.mp h₂
      have scalar : IsScalar (b.toNat % 16 * 4096 + b₁.toNat % 64 * 64 + b₂.toNat % 64) := ⟨by omega, by omega⟩
      refine Or.inr ⟨_, 2, decodeRune_three (by omega) seq h₁ h₂ s, scalar, by simp, ?_⟩
      rw [encodeRune_eq scalar, if_neg (by omega), if_neg (by omega), if_pos (by omega), toUInt8_eq (b := b) (by omega),
        toUInt8_eq (b := b₁) (by omega), toUInt8_eq (b := b₂) (by omega)]
      rfl
    · left
      unfold decodeRune
      rw [if_neg high, seq]
      exact if_neg valid

theorem decodesAt_four (lo : 0xF0 ≤ b.toNat) (hi : b.toNat ≤ 0xF4) : DecodesAt b rest := by
  have high : ¬ b < 0x80 := fun lt => absurd (UInt8.lt_iff_toNat_lt.mp lt) (by simp; omega)
  obtain ⟨l, h, seq, second⟩ := sequenceOf_four lo hi
  match rest with
  | [] | [_] | [_, _] =>
    left
    unfold decodeRune
    rw [if_neg high, seq]
    rfl
  | b₁ :: b₂ :: b₃ :: s =>
    by_cases valid : (inRange l h b₁ && inRange 0x80 0xBF b₂ && inRange 0x80 0xBF b₃) = true
    · obtain ⟨h₁₂, h₃⟩ := Bool.and_eq_true_iff.mp valid
      obtain ⟨h₁, h₂⟩ := Bool.and_eq_true_iff.mp h₁₂
      have range := (second b₁).mp h₁
      have range₂ := continuation_iff.mp h₂
      have range₃ := continuation_iff.mp h₃
      have scalar : IsScalar (b.toNat % 8 * 262144 + b₁.toNat % 64 * 4096 + b₂.toNat % 64 * 64 + b₃.toNat % 64) :=
        ⟨by omega, by omega⟩
      refine Or.inr ⟨_, 3, decodeRune_four (by omega) seq h₁ h₂ h₃ s, scalar, by simp, ?_⟩
      rw [encodeRune_eq scalar, if_neg (by omega), if_neg (by omega), if_neg (by omega), toUInt8_eq (b := b) (by omega),
        toUInt8_eq (b := b₁) (by omega), toUInt8_eq (b := b₂) (by omega), toUInt8_eq (b := b₃) (by omega)]
      rfl
    · left
      unfold decodeRune
      rw [if_neg high, seq]
      exact if_neg valid

theorem decodesAt (b : UInt8) (rest : GoString) : DecodesAt b rest := by
  by_cases ascii : b.toNat < 0x80
  · have scalar : IsScalar b.toNat := ⟨by omega, by omega⟩
    refine Or.inr ⟨b.toNat, 0, ?_, scalar, Nat.zero_le _, ?_⟩
    · unfold decodeRune
      exact if_pos (UInt8.lt_iff_toNat_lt.mpr ascii)
    · rw [encodeRune_eq scalar, if_pos ascii, toUInt8_eq rfl]
      rfl
  by_cases other : b.toNat < 0xC2 ∨ 0xF4 < b.toNat
  · left
    unfold decodeRune
    rw [if_neg fun lt => ascii (UInt8.lt_iff_toNat_lt.mp lt), sequenceOf_none other]
  by_cases two : b.toNat ≤ 0xDF
  · exact decodesAt_two (by omega) two
  by_cases three : b.toNat ≤ 0xEF
  · exact decodesAt_three (by omega) three
  · exact decodesAt_four (by omega) (by omega)

/-- A byte past ASCII that nothing continues, or that itself should continue something, is invalid. -/
theorem decodeRune_invalid (h : Continues b ∨ 0x80 ≤ b.toNat ∧ ∀ c ∈ rest.head?, ¬ Continues c) :
    decodeRune b rest = (runeError, 0) := by
  rcases decodesAt b rest with invalid | ⟨r, n, _, scalar, _, bytes⟩
  · exact invalid
  exfalso
  obtain ⟨first, others, alone⟩ := encodeRune_bytes scalar bytes
  rcases h with continues | ⟨high, next⟩
  · exact first continues
  cases rest with
  | nil => exact absurd (alone (List.take_nil)) (by omega)
  | cons c rest =>
    cases n with
    | zero => exact absurd (alone rfl) (by omega)
    | succ n => exact next c rfl (others c List.mem_cons_self)

end Decoding

/-! ### Strings -/

theorem runesFrom_enough {n m : Nat} {s : GoString} (hn : s.length ≤ n) (hm : s.length ≤ m) :
    runesFrom n s = runesFrom m s := by
  induction n generalizing m s with
  | zero =>
    obtain rfl := List.length_eq_zero_iff.mp (Nat.le_zero.mp hn)
    cases m <;> rfl
  | succ n ih =>
    cases s with
    | nil => cases m <;> rfl
    | cons b rest =>
      cases m with
      | zero => cases hm
      | succ m =>
        have shorter : (rest.drop (decodeRune b rest).2).length ≤ rest.length := by
          rw [List.length_drop]
          omega
        rw [List.length_cons] at hn hm
        rw [runesFrom, runesFrom, ih (m := m) (by omega) (by omega)]

theorem runes_cons (b : UInt8) (rest : GoString) :
    runes (b :: rest) = (decodeRune b rest).1 :: runes (rest.drop (decodeRune b rest).2) := by
  have shorter : (rest.drop (decodeRune b rest).2).length ≤ rest.length := by
    rw [List.length_drop]
    omega
  change _ :: runesFrom rest.length _ = _
  rw [runesFrom_enough shorter (Nat.le_refl _)]
  rfl

@[simp]
theorem runes_nil : runes [] = [] := rfl

theorem runes_eq_nil {s : GoString} : runes s = [] ↔ s = [] := by
  cases s with
  | nil => simp
  | cons b rest => simp [runes_cons]

theorem isScalar_of_mem_runes {s : GoString} {r : Nat} (mem : r ∈ runes s) : IsScalar r := by
  induction n : s.length using Nat.strong_induction_on generalizing s with
  | _ n ih =>
    cases s with
    | nil => cases mem
    | cons b rest =>
      rw [runes_cons] at mem
      rcases List.mem_cons.mp mem with rfl | mem
      · rcases decodesAt b rest with invalid | ⟨r, n, decoded, scalar, _⟩
        · rw [invalid]
          decide
        · rw [decoded]
          exact scalar
      · refine ih _ ?_ mem rfl
        rw [List.length_drop, ← n, List.length_cons]
        omega

theorem runes_encodeRune {r : Nat} (scalar : IsScalar r) (s : GoString) : runes (encodeRune r ++ s) = r :: runes s := by
  obtain ⟨b, tail, bytes, decoded⟩ := decodeRune_encodeRune scalar
  rw [bytes, List.cons_append, runes_cons, decoded]
  dsimp only
  rw [List.drop_left]

theorem runes_stringOfRunes {rs : List Nat} (scalar : ∀ r ∈ rs, IsScalar r) (s : GoString) :
    runes (stringOfRunes rs ++ s) = rs ++ runes s := by
  induction rs with
  | nil => rfl
  | cons r rs ih =>
    obtain ⟨first, others⟩ := List.forall_mem_cons.mp scalar
    rw [stringOfRunes, List.flatMap_cons, List.append_assoc, runes_encodeRune first]
    exact congrArg (r :: ·) (ih others)

/-- The string is the encoding of some runes. -/
def ValidUtf8 (s : GoString) : Prop := ∃ rs : List Nat, (∀ r ∈ rs, IsScalar r) ∧ s = stringOfRunes rs

/-- Converting to runes and back gives the string again. -/
theorem validUtf8_iff {s : GoString} : ValidUtf8 s ↔ stringOfRunes (runes s) = s := by
  constructor
  · intro ⟨rs, scalar, same⟩
    have decoded := runes_stringOfRunes scalar []
    rw [List.append_nil, runes_nil, List.append_nil, ← same] at decoded
    rw [decoded, same]
  · intro same
    exact ⟨runes s, fun r mem => isScalar_of_mem_runes mem, same.symm⟩

instance : DecidablePred ValidUtf8 := fun _ => decidable_of_iff _ validUtf8_iff.symm

theorem ValidUtf8.runes_append {s : GoString} (valid : ValidUtf8 s) (t : GoString) :
    runes (s ++ t) = runes s ++ runes t := by
  have decoded := runes_stringOfRunes (fun r mem => isScalar_of_mem_runes (s := s) mem) t
  rwa [validUtf8_iff.mp valid] at decoded

theorem validUtf8_runes (s : GoString) : ValidUtf8 (stringOfRunes (runes s)) :=
  ⟨runes s, fun _ mem => isScalar_of_mem_runes mem, rfl⟩

theorem runes_stringOfRunes_runes (s : GoString) : runes (stringOfRunes (runes s)) = runes s := by
  have decoded := runes_stringOfRunes (fun r mem => isScalar_of_mem_runes (s := s) mem) []
  simpa using decoded

theorem ValidUtf8.head_not_continues {b : UInt8} {rest : GoString} (valid : ValidUtf8 (b :: rest)) : ¬ Continues b := by
  obtain ⟨rs, scalar, same⟩ := valid
  cases rs with
  | nil => cases same
  | cons r rs =>
    have first := scalar r List.mem_cons_self
    obtain ⟨b', tail, bytes, _⟩ := decodeRune_encodeRune first
    rw [stringOfRunes, List.flatMap_cons, bytes] at same
    obtain ⟨rfl, _⟩ := List.cons.inj same
    exact (encodeRune_bytes first bytes).1

/-- A string of one rune is its encoding, or one invalid byte. -/
theorem single_rune {sep : GoString} {r : Nat} (single : runes sep = [r]) :
    ValidUtf8 sep ∨ ∃ b, sep = [b] ∧ 0x80 ≤ b.toNat ∧ r = runeError := by
  cases sep with
  | nil => cases single
  | cons b rest =>
    rw [runes_cons] at single
    obtain ⟨value, nothing⟩ := List.cons.inj single
    rw [runes_eq_nil] at nothing
    rcases decodesAt b rest with invalid | ⟨r', n, decoded, scalar, _, bytes⟩
    · rw [invalid] at value nothing
      obtain rfl : rest = [] := nothing
      by_cases ascii : b.toNat < 0x80
      · exfalso
        unfold decodeRune at invalid
        rw [if_pos (UInt8.lt_iff_toNat_lt.mpr ascii)] at invalid
        have : b.toNat = 0xFFFD := congrArg Prod.fst invalid
        omega
      · exact Or.inr ⟨b, rfl, by omega, value.symm⟩
    · rw [decoded] at nothing
      left
      refine ⟨[r'], by simpa using scalar, ?_⟩
      rw [stringOfRunes, List.flatMap_singleton, bytes, List.take_of_length_le (List.drop_eq_nil_iff.mp nothing)]

end BeIndexer
