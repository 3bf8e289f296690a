import BeIndexer.Holder.Range

/-!
# What the range container admits

The bounds of `RangeHolderOption` and the syntax of `Between`: which ranges reach the index, and as
what.
-/

namespace BeIndexer

open RangeIdx

/-! ### The configured bounds -/

/-- The bounds are meant to clip a range. `IndexingRange` looks for the cell of its left end instead,
and a range that starts below the domain is placed nowhere. -/
theorem rangeBounds_clip_iff (option : RangeHolderOption) (bounds : option.rangeMin < option.rangeMax)
    (calls : List Call) (proper : ∀ call ∈ calls, call.left < call.right) {v : Int64} (hi : v < option.rangeMax)
    (eid : EntryID) :
    ∃ h rix, newNumberExtendRangeHolder option = .ok h ∧ calls.foldlM Call.run h.rangeIdx = .ok rix ∧
      ((rix.compile.Answers v eid ↔ ∃ call ∈ calls, call.eid = eid ∧ call.left ≤ v ∧ v < call.right) ↔
        ((∃ call ∈ calls, call.eid = eid ∧ call.left ≤ v ∧ v < call.right) →
          ∃ call ∈ calls, call.eid = eid ∧ option.rangeMin ≤ call.left ∧ call.left ≤ v ∧ v < call.right)) := by
  obtain ⟨rix, runs, answers⟩ := calls_answers bounds calls v eid
  have placed : (∃ call ∈ calls, call.eid = eid ∧ call.Placed option.rangeMin option.rangeMax v) ↔
      ∃ call ∈ calls, call.eid = eid ∧ option.rangeMin ≤ call.left ∧ call.left ≤ v ∧ v < call.right := by
    refine exists_congr fun call => and_congr_right fun mem => and_congr_right fun _ => ?_
    rw [Call.Placed, bumpEqual_ne (ne_of_lt (proper call mem))]
    exact and_iff_right hi
  refine ⟨_, rix, newNumberExtendRangeHolder_ok option bounds, runs, ?_⟩
  rw [answers, placed]
  constructor
  · intro same
    exact same.mpr
  · intro kept
    refine ⟨fun inside => ?_, kept⟩
    obtain ⟨call, mem, eq, _, inside⟩ := inside
    exact ⟨call, mem, eq, inside⟩

theorem rangeBounds_clip_inside :
    ∃ h rix, newNumberExtendRangeHolder ⟨true, .below 256, 100, 0⟩ = .ok h ∧
      [⟨0, 10, 7, by decide⟩].foldlM Call.run h.rangeIdx = .ok rix ∧ rix.compile.Answers 3 7 := by
  obtain ⟨h, rix, made, runs, same⟩ := rangeBounds_clip_iff ⟨true, .below 256, 100, 0⟩ (by decide)
    [⟨0, 10, 7, by decide⟩] (by simp) (v := 3) (by decide) 7
  refine ⟨h, rix, made, runs, ?_⟩
  refine (same.mpr fun _ => ?_).mpr ?_
  · exact ⟨_, List.mem_singleton_self _, rfl, by decide⟩
  · exact ⟨_, List.mem_singleton_self _, rfl, by decide⟩

/-- `[-5, 10)` in the same domain answers for none of its values. -/
theorem rangeBounds_lose_range :
    ∃ h rix, newNumberExtendRangeHolder ⟨true, .below 256, 100, 0⟩ = .ok h ∧
      [⟨-5, 10, 7, by decide⟩].foldlM Call.run h.rangeIdx = .ok rix ∧ ¬ rix.compile.Answers 3 7 := by
  obtain ⟨rix, runs, answers⟩ := calls_answers (show (0 : Int64) < 100 by decide) [⟨-5, 10, 7, by decide⟩] 3 7
  refine ⟨_, rix, newNumberExtendRangeHolder_ok _ (by decide), runs, ?_⟩
  rw [answers]
  simp [Call.Placed]

/-! ### The syntax of `Between` -/

/-- The values that the operator documents, with the two bounds they stand for. -/
inductive BetweenSyntax : Value → Int64 → Int64 → Prop where
  | pair (l r : Int64) : BetweenSyntax (.int64Pair l r) l r
  | slice (l r : Int) : BetweenSyntax (.ints .int64 (some [l, r])) (Int64.ofInt l) (Int64.ofInt r)
  | text {a b : GoString} {l r : Int64} (left : parseInt a = some l) (right : parseInt b = some r) :
      BetweenSyntax (.scalar (.string (a ++ 58 :: b))) l r

def BetweenExact (value : Value) : Prop :=
  (∀ l r, BetweenSyntax value l r → l ≤ r → ∃ rg, parseBetween value = .ok rg ∧
    ∀ v, (rg.left ≤ v ∧ v < rg.right) ↔ if l = r then v = l else l ≤ v ∧ v < r) ∧
  ((¬ ∃ l r, BetweenSyntax value l r ∧ l ≤ r) → ∃ e, parseBetween value = .error (.err e))

/-- Two numbers and no third, unless they are out of order. -/
def BetweenParts : List GoString → Prop
  | [a, b] =>
    match parseInt a, parseInt b with
    | some l, some r => ¬ (l = Int64.maxValue ∧ r = Int64.maxValue)
    | _, _ => True
  | a :: b :: c :: _ =>
    match parseInt a, parseInt b, parseInt c with
    | some l, some r, some _ => r < l
    | _, _, _ => True
  | _ => True

/-- The values on which it does: of the three documented types, a string without a third number, and
not both bounds `MaxInt64`. -/
def BetweenInput : Value → Prop
  | .int64Pair l r => ¬ (l = Int64.maxValue ∧ r = Int64.maxValue)
  | .ints .int64 ns => ∀ l r, ns.elems = [l, r] →
      ¬ (Int64.ofInt l = Int64.maxValue ∧ Int64.ofInt r = Int64.maxValue)
  | .scalar (.string s) => BetweenParts (splitColon s)
  | _ => False

/-- `r++` makes `[l, l]` the one value `l`, save at `MaxInt64` where it wraps around. -/
theorem newRange_contains_iff {l r : Int64} (le : l ≤ r) :
    (∀ v, ((newRange l r le).left ≤ v ∧ v < (newRange l r le).right) ↔ if l = r then v = l else l ≤ v ∧ v < r) ↔
      ¬ (l = Int64.maxValue ∧ r = Int64.maxValue) := by
  change (∀ v, (l ≤ v ∧ v < bumpEqual l r) ↔ _) ↔ _
  by_cases same : l = r
  · subst same
    by_cases top : l = Int64.maxValue
    · subst top
      refine iff_of_false (fun contains => ?_) (by simp)
      exact absurd ((contains Int64.maxValue).mpr (by simp)) (by decide)
    · refine iff_of_true (fun v => ?_) (by simp [top])
      rw [if_pos rfl, bumpEqual, if_pos rfl, Int64.le_iff_toInt_le, Int64.lt_iff_toInt_lt, toInt_succ (lt_maxValue top),
        ← Int64.toInt_inj]
      omega
  · refine iff_of_true (fun v => ?_) (fun top => same (top.1.trans top.2.symm))
    rw [bumpEqual_ne same, if_neg same]

section Cases

variable {value : Value} {l r : Int64}

theorem parseBetween_of_le (bounds : betweenBounds value = .ok (l, r)) (le : l ≤ r) :
    parseBetween value = .ok (newRange l r le) := by
  rw [parseBetween, bounds]
  exact dif_neg (not_lt.mpr le)

theorem parseBetween_of_lt (bounds : betweenBounds value = .ok (l, r)) (lt : r < l) :
    ∃ e, parseBetween value = .error (.err e) := by
  rw [parseBetween, bounds]
  exact ⟨_, dif_pos lt⟩

theorem betweenExact_of_documented (bounds : betweenBounds value = .ok (l, r))
    (stands : ∀ l' r', BetweenSyntax value l' r' ↔ l' = l ∧ r' = r) :
    BetweenExact value ↔ ¬ (l = Int64.maxValue ∧ r = Int64.maxValue) := by
  rcases le_or_gt l r with le | lt
  · rw [← newRange_contains_iff le]
    constructor
    · intro exact v
      obtain ⟨rg, parsed, contains⟩ := exact.1 l r ((stands l r).mpr ⟨rfl, rfl⟩) le
      obtain rfl := Except.ok.inj ((parseBetween_of_le bounds le).symm.trans parsed)
      exact contains v
    · intro contains
      refine ⟨fun l' r' inSyntax _ => ?_, fun outside => ?_⟩
      · obtain ⟨rfl, rfl⟩ := (stands l' r').mp inSyntax
        exact ⟨_, parseBetween_of_le bounds le, contains⟩
      · exact absurd ⟨l, r, (stands l r).mpr ⟨rfl, rfl⟩, le⟩ outside
  · refine iff_of_true ⟨fun l' r' inSyntax le => ?_, fun _ => parseBetween_of_lt bounds lt⟩ fun top => ?_
    · obtain ⟨rfl, rfl⟩ := (stands l' r').mp inSyntax
      exact absurd le (not_le.mpr lt)
    · exact absurd lt (by rw [top.1, top.2]; exact lt_irrefl _)

theorem betweenExact_of_bounds (bounds : betweenBounds value = .ok (l, r))
    (outside : ∀ l' r', ¬ BetweenSyntax value l' r') : BetweenExact value ↔ r < l := by
  constructor
  · intro exact
    by_contra le
    obtain ⟨e, failed⟩ := exact.2 fun ⟨l', r', inSyntax, _⟩ => outside l' r' inSyntax
    rw [parseBetween_of_le bounds (not_lt.mp le)] at failed
    cases failed
  · intro lt
    exact ⟨fun l' r' inSyntax => absurd inSyntax (outside l' r'), fun _ => parseBetween_of_lt bounds lt⟩

theorem betweenExact_of_error (bounds : ∃ e, betweenBounds value = .error (.err e))
    (outside : ∀ l' r', ¬ BetweenSyntax value l' r') : BetweenExact value := by
  obtain ⟨e, bounds⟩ := bounds
  refine ⟨fun l' r' inSyntax => absurd inSyntax (outside l' r'), fun _ => ⟨e, ?_⟩⟩
  rw [parseBetween, bounds]
  rfl

end Cases

/-- A number holds no colon, so the text is split at the one in the middle. -/
theorem betweenSyntax_text_iff {s : GoString} {l r : Int64} :
    BetweenSyntax (.scalar (.string s)) l r ↔
      ∃ a b, splitColon s = [a, b] ∧ parseInt a = some l ∧ parseInt b = some r := by
  have noColon : ∀ {s : GoString} {n : Int64}, parseInt s = some n → 58 ∉ s := by
    intro s n parsed mem
    exact absurd (parseInt_chars parsed 58 mem) (by decide)
  constructor
  · intro inSyntax
    cases inSyntax with
    | @text a b _ _ left right =>
      refine ⟨a, b, ?_, left, right⟩
      have parts : ∀ part ∈ [a, b], (58 : UInt8) ∉ part := by
        intro part mem
        rcases List.mem_pair.mp mem with rfl | rfl
        · exact noColon left
        · exact noColon right
      simpa [splitColon] using List.splitOn_intercalate 58 parts (by simp)
  · intro ⟨a, b, parts, left, right⟩
    have joined : List.intercalate [58] (List.splitOn 58 s) = s := List.intercalate_splitOn 58
    rw [show List.splitOn 58 s = [a, b] from parts] at joined
    rw [← joined]
    simpa using BetweenSyntax.text left right

theorem betweenExact_text_iff (s : GoString) :
    BetweenExact (.scalar (.string s)) ↔ BetweenInput (.scalar (.string s)) := by
  have rejected : newRangeDesc s = none → (∀ l r, ¬ BetweenSyntax (.scalar (.string s)) l r) →
      BetweenExact (.scalar (.string s)) := by
    intro desc outside
    refine betweenExact_of_error ?_ outside
    rw [betweenBounds, desc]
    exact ⟨_, rfl⟩
  have accepted : ∀ {d : RangeDesc}, newRangeDesc s = some d →
      betweenBounds (.scalar (.string s)) = .ok (d.start, d.end_) := by
    intro d desc
    rw [betweenBounds, desc]
    rfl
  simp only [betweenSyntax_text_iff] at rejected
  rcases parts : splitColon s with _ | ⟨a, _ | ⟨b, rest⟩⟩
  · exact iff_of_true (rejected (by rw [newRangeDesc, parts]) (by simp [parts])) (by rw [BetweenInput, parts]; trivial)
  · exact iff_of_true (rejected (by rw [newRangeDesc, parts]) (by simp [parts])) (by rw [BetweenInput, parts]; trivial)
  cases left : parseInt a with
  | none =>
    refine iff_of_true (rejected ?_ ?_) ?_
    · simp [newRangeDesc, parts, left]
    · simp [parts, left]
    · rw [BetweenInput, parts]
      cases rest <;> simp [BetweenParts, left]
  | some l =>
    cases right : parseInt b with
    | none =>
      refine iff_of_true (rejected ?_ ?_) ?_
      · simp [newRangeDesc, parts, right]
      · simp [parts, right]
      · rw [BetweenInput, parts]
        cases rest <;> simp [BetweenParts, left, right]
    | some r =>
      cases rest with
      | nil =>
        rw [betweenExact_of_documented (accepted (d := ⟨l, r, 1⟩) (by simp [newRangeDesc, parts, left, right]))]
        · simp [BetweenInput, BetweenParts, parts, left, right]
        · intro l' r'
          simp [betweenSyntax_text_iff, parts, left, right, eq_comm]
      | cons c rest =>
        cases third : parseInt c with
        | none =>
          refine iff_of_true (rejected ?_ ?_) ?_
          · simp [newRangeDesc, parts, left, right, third]
          · simp [parts]
          · simp [BetweenInput, BetweenParts, parts, left, right, third]
        | some step =>
          rw [betweenExact_of_bounds (accepted (d := ⟨l, r, step⟩) (by simp [newRangeDesc, parts, left, right, third]))]
          · simp [BetweenInput, BetweenParts, parts, left, right, third]
          · simp [betweenSyntax_text_iff, parts]

theorem betweenExact_slice_iff (ns : Slice Int) :
    BetweenExact (.ints .int64 ns) ↔ BetweenInput (.ints .int64 ns) := by
  have rejected : (∀ l r, ns.elems ≠ [l, r]) → (BetweenExact (.ints .int64 ns) ↔ BetweenInput (.ints .int64 ns)) := by
    intro other
    refine iff_of_true (betweenExact_of_error ?_ ?_) fun l r pair => absurd pair (other l r)
    · rw [betweenBounds]
      split
      · rename_i l r pair
        exact absurd pair (other l r)
      · exact ⟨_, rfl⟩
    · intro l r inSyntax
      cases inSyntax with
      | slice l r => exact other l r rfl
  match ns with
  | some [l, r] =>
    refine (betweenExact_of_documented rfl fun l' r' => ?_).trans ?_
    · exact ⟨by rintro ⟨⟩; exact ⟨rfl, rfl⟩, fun ⟨hl, hr⟩ => by rw [hl, hr]; exact BetweenSyntax.slice l r⟩
    · simp [BetweenInput, Slice.elems]
  | none | some [] | some [_] | some (_ :: _ :: _ :: _) => exact rejected (by simp [Slice.elems])

/-- `ParseBetween` accepts its syntax and nothing else on the values of `BetweenInput` only: any other
type falls through the switch as `[0, 1)`, a third number is dropped, and the top value is lost. -/
theorem parseBetween_exact_iff (value : Value) : BetweenExact value ↔ BetweenInput value := by
  have fallsThrough : betweenBounds value = .ok (0, 0) → (∀ l r, ¬ BetweenSyntax value l r) → ¬ BetweenExact value := by
    intro bounds outside exact
    exact absurd ((betweenExact_of_bounds bounds outside).mp exact) (lt_irrefl _)
  cases value with
  | int64Pair l r =>
    refine betweenExact_of_documented rfl fun l' r' => ⟨fun inSyntax => ?_, fun ⟨hl, hr⟩ => ?_⟩
    · cases inSyntax
      exact ⟨rfl, rfl⟩
    · rw [hl, hr]
      exact BetweenSyntax.pair l r
  | ints kind ns =>
    cases kind with
    | int64 => exact betweenExact_slice_iff ns
    | _ => exact iff_of_false (fallsThrough rfl (by rintro l r ⟨⟩)) id
  | scalar s =>
    cases s with
    | string s => exact betweenExact_text_iff s
    | _ => exact iff_of_false (fallsThrough rfl (by rintro l r ⟨⟩)) id
  | _ => exact iff_of_false (fallsThrough rfl (by rintro l r ⟨⟩)) id

/-- The list `[3, 7]` as JSON decodes it is taken for `[0, 1)`. -/
theorem parseBetween_json_list :
    let value := Value.ifaces (some [.float .float64 ⟨0x4008000000000000⟩, .float .float64 ⟨0x401C000000000000⟩])
    parseBetween value = .ok (newRange 0 0 (by decide)) ∧ ¬ BetweenExact value := by
  refine ⟨rfl, fun exact => ?_⟩
  have outside : ∀ l r, ¬ BetweenSyntax (.ifaces (some [.float .float64 ⟨0x4008000000000000⟩,
      .float .float64 ⟨0x401C000000000000⟩])) l r := by
    rintro l r ⟨⟩
  exact absurd ((betweenExact_of_bounds rfl outside).mp exact) (lt_irrefl _)

end BeIndexer
