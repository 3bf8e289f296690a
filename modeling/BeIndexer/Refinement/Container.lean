import BeIndexer.Store

/-!
# Posting lists of a container

`EntriesContainer.postings` reads the posting lists of a field off a container. Creating a holder or
a field shows in none of them, and writing a holder back changes those of its field only.
-/

namespace BeIndexer

/-! ### Kinds of holders -/

/-- What a holder was made as. -/
inductive HolderKind where
  | default
  | range (option : RangeHolderOption) (valueMin valueMax : Int64)
  | optimizedRange (option : RangeHolderOption)
  | acMatcher (querySep : GoString)

namespace EntriesHolder

def kind : EntriesHolder → HolderKind
  | .default _ => .default
  | .range h => .range h.option h.rangeIdx.valueMin h.rangeIdx.valueMax
  | .optimizedRange h => .optimizedRange h.option
  | .acMatcher h => .acMatcher h.querySep

/-- The holder is one that the factory makes for a container name. -/
def Of (h : EntriesHolder) (container : GoString) : Prop := (newEntriesHolder container).map kind = some h.kind

theorem of_newEntriesHolder {h : EntriesHolder} {container : GoString} (made : newEntriesHolder container = some h) :
    h.Of container := by
  rw [Of, made]
  rfl

theorem Of.registered {h : EntriesHolder} {container : GoString} (of : h.Of container) :
    newEntriesHolder container ≠ none := by
  intro missing
  rw [Of, missing] at of
  cases of

theorem Of.default_iff {h : EntriesHolder} {container : GoString} (of : h.Of container) :
    h.kind = .default ↔ container = HolderNameDefault := by
  unfold Of newEntriesHolder at of
  split at of
  · rename_i named
    exact ⟨fun _ => named, fun _ => (Option.some.inj of).symm⟩
  · rename_i other
    refine ⟨fun isDefault => ?_, fun named => absurd named other⟩
    rw [isDefault] at of
    split_ifs at of <;> cases of

theorem Of.optimized_iff {h : EntriesHolder} {container : GoString} (of : h.Of container) :
    (∃ option, h.kind = .optimizedRange option) ↔ container = HolderNameOptimizedRange := by
  unfold Of newEntriesHolder at of
  constructor
  · rintro ⟨option, isOptimized⟩
    rw [isOptimized] at of
    split_ifs at of with _ _ named
    · cases of
    · cases of
    · exact named
    · cases of
    · cases of
  · rintro rfl
    exact ⟨_, (Option.some.inj of).symm⟩

theorem Of.range_eq {h : RangeHolder} {container : GoString} (of : (EntriesHolder.range h).Of container) :
    container = HolderNameExtendRange ∧ h.option = newRangeHolderOption ∧
      h.rangeIdx.valueMin = Int64.minValue ∧ h.rangeIdx.valueMax = Int64.maxValue := by
  unfold Of newEntriesHolder at of
  split_ifs at of with _ named
  · cases of
  · injection of with same
    injection same with option min max
    exact ⟨named, option.symm, min.symm, max.symm⟩
  · cases of
  · cases of
  · cases of

variable [FloatOps]

theorem build_kind {h h' : EntriesHolder} {d d' : FieldDesc} (bv : BoolValues) (same : h.kind = h'.kind)
    (plain : ∀ option, h.kind ≠ .optimizedRange option) (field : d.field = d'.field) :
    h.buildFieldIndexingData d bv = ((h'.buildFieldIndexingData d' bv).map Prod.snd).map fun data => (h, data) := by
  cases h with
  | default h =>
    cases h' with
    | default h' =>
      simp only [buildFieldIndexingData, DefaultEntriesHolder.buildFieldIndexingData, field]
      generalize (panicIf (bv.operator != .eq) _ _ >>= _ : Go (List GoString)) = r
      cases r <;> rfl
    | _ => cases same
  | range h =>
    cases h' with
    | range h' =>
      obtain option : h.option = h'.option := by injection same
      simp only [buildFieldIndexingData, field, option]
      generalize RangeHolder.buildFieldIndexingData h'.option d'.field bv = r
      cases r <;> rfl
    | _ => cases same
  | optimizedRange h => exact absurd rfl (plain _)
  | acMatcher h =>
    cases h' with
    | acMatcher h' =>
      simp only [buildFieldIndexingData]
      generalize ACEntriesHolder.buildFieldIndexingData bv = r
      cases r <;> rfl
    | _ => cases same

/-- The expression leaves its holder as it is. The optimised range holder collects the ends of an
interval that it keeps. -/
def Quiet (container : GoString) (field : BEField) (bv : BoolValues) : Prop :=
  ∀ data, prepareExpr container field bv = .ok (.optimizedRange data) → data.operator = .eq

theorem quiet_of_ne {container : GoString} {field : BEField} {bv : BoolValues}
    (plain : container ≠ HolderNameOptimizedRange) : Quiet container field bv := by
  intro data prepared
  unfold prepareExpr at prepared
  split at prepared
  · rename_i h made
    obtain ⟨⟨h', _⟩, built, rfl⟩ := map_eq_ok.mp prepared
    have of := of_newEntriesHolder made
    cases h with
    | optimizedRange h => exact absurd (of.optimized_iff.mp ⟨_, rfl⟩) plain
    | _ =>
      obtain ⟨_, _, done⟩ := bind_eq_ok.mp built
      cases done
  · cases prepared

theorem build_prepares {h : EntriesHolder} {desc : FieldDesc} (bv : BoolValues) (of : h.Of desc.container)
    (quiet : Quiet desc.container desc.field bv) :
    h.buildFieldIndexingData desc bv = (prepareExpr desc.container desc.field bv).map fun data => (h, data) := by
  unfold Quiet prepareExpr at quiet
  unfold prepareExpr
  by_cases isOptimized : ∃ option, h.kind = .optimizedRange option
  · have named := of.optimized_iff.mp isOptimized
    cases h with
    | optimizedRange h =>
      have made : newEntriesHolder desc.container =
          some (.optimizedRange (newOptimizedRangeHolder newRangeHolderOption)) := by
        rw [named]
        rfl
      have option : h.option = newRangeHolderOption := by
        rw [Of, made] at of
        injection of with same
        injection same with same
        exact same.symm
      have fresh := h.build_fresh desc.field bv (by
        intro h' data built
        refine quiet data ?_
        simp only [made, buildFieldIndexingData, ← option, built]
        rfl)
      simp only [made, buildFieldIndexingData, fresh, option]
      generalize (newOptimizedRangeHolder newRangeHolderOption).buildFieldIndexingData desc.field bv = r
      cases r <;> rfl
    | _ =>
      obtain ⟨_, isOptimized⟩ := isOptimized
      cases isOptimized
  · cases made : newEntriesHolder desc.container with
    | none =>
      rw [Of, made] at of
      cases of
    | some h' =>
      rw [Of, made] at of
      exact build_kind bv (Option.some.inj of).symm (fun option same => isOptimized ⟨option, same⟩) rfl

theorem build_keeps {h h' : EntriesHolder} {desc : FieldDesc} {bv : BoolValues} {data : IndexingData}
    (run : h.buildFieldIndexingData desc bv = .ok (h', data)) :
    h'.kind = h.kind ∧ ∀ d, h' = .default d → h = .default d := by
  cases h with
  | default h =>
    obtain ⟨values, _, done⟩ := bind_eq_ok.mp run
    obtain ⟨rfl, rfl⟩ := Prod.mk.inj (Except.ok.inj done)
    exact ⟨rfl, fun d h => h⟩
  | range h =>
    obtain ⟨values, _, done⟩ := bind_eq_ok.mp run
    obtain ⟨rfl, rfl⟩ := Prod.mk.inj (Except.ok.inj done)
    exact ⟨rfl, fun d h => h⟩
  | optimizedRange h =>
    obtain ⟨⟨h'', values⟩, build, done⟩ := bind_eq_ok.mp run
    obtain ⟨rfl, rfl⟩ := Prod.mk.inj (Except.ok.inj done)
    refine ⟨?_, by rintro d ⟨⟩⟩
    rw [kind, kind, OptimizedRangeHolder.build_option build]
  | acMatcher h =>
    obtain ⟨values, _, done⟩ := bind_eq_ok.mp run
    obtain ⟨rfl, rfl⟩ := Prod.mk.inj (Except.ok.inj done)
    exact ⟨rfl, fun d h => h⟩

omit [FloatOps] in
theorem commit_kind {h h' : EntriesHolder} {desc : FieldDesc} {eid : EntryID} {data : IndexingData}
    (run : h.commitFieldIndexingData desc eid data = .ok h') : h'.kind = h.kind := by
  cases h <;> cases data <;> simp only [commitFieldIndexingData, panicf, errorf, reduceCtorEq] at run
  · obtain rfl := Except.ok.inj run
    rfl
  · obtain ⟨r, commit, rfl⟩ := map_eq_ok.mp run
    obtain ⟨option, _, min, max⟩ := RangeHolder.commit_frame commit
    rw [kind, kind, option, min, max]
  · obtain ⟨r, commit, rfl⟩ := map_eq_ok.mp run
    rw [kind, kind, OptimizedRangeHolder.commit_option commit]
  · obtain rfl := Except.ok.inj run
    rfl

omit [FloatOps] in
theorem commit_default {h h' : DefaultEntriesHolder} {desc : FieldDesc} {eid : EntryID} {data : IndexingData}
    (run : (EntriesHolder.default h).commitFieldIndexingData desc eid data = .ok (.default h')) (term : Term)
    (other : term.fieldID ≠ desc.id) : h'.plEntries term = h.plEntries term := by
  cases data <;> simp only [commitFieldIndexingData, panicf, reduceCtorEq] at run
  obtain rfl := EntriesHolder.default.inj (Except.ok.inj run)
  simp [DefaultEntriesHolder.commitFieldIndexingData, other]

omit [FloatOps] in
theorem commit_postings (h : EntriesHolder) (desc : FieldDesc) (eid : EntryID) (data : IndexingData) :
    (h.commitFieldIndexingData desc eid data).map (Postings.ofHolder desc.id) =
      (Postings.ofHolder desc.id h).commit eid data := by
  cases h with
  | default h =>
    cases data with
    | strTokens values => simp [commitFieldIndexingData, Postings.commit, Postings.ofHolder, Except.map,
        DefaultEntriesHolder.commitFieldIndexingData]
    | _ => rfl
  | range h =>
    cases data with
    | range data =>
      simp only [commitFieldIndexingData, Postings.commit, Postings.ofHolder]
      cases h.commitFieldIndexingData eid data <;> rfl
    | _ => rfl
  | optimizedRange h =>
    cases data with
    | optimizedRange data =>
      simp only [commitFieldIndexingData, Postings.commit, Postings.ofHolder]
      cases h.commitFieldIndexingData eid data <;> rfl
    | _ => rfl
  | acMatcher h => cases data <;> rfl

omit [FloatOps] in
theorem decode_kind [Codec] {h h' : EntriesHolder} (same : h.kind = h'.kind) :
    h.decodeFieldIndexingData = h'.decodeFieldIndexingData := by
  funext bytes
  cases h <;> cases h' <;> first | rfl | cases same

end EntriesHolder

/-! ### Containers -/

namespace EntriesContainer

/-- The holder that `CreateHolder` returns, if the container name is registered. -/
def heldBy (c : EntriesContainer) (desc : FieldDesc) : Option EntriesHolder :=
  (c.getFieldHolder desc).or (newEntriesHolder desc.container)

/-- The posting lists of a field. A field that is not configured yet has empty ones. -/
def postings (c : EntriesContainer) (t : FieldTable) (f : BEField) : Postings :=
  match t.find f with
  | none => .empty
  | some desc =>
    match c.heldBy desc with
    | some h => .ofHolder desc.id h
    | none => .empty

/-- The container has no terms of fields to come, and every field holder is one for its field. -/
structure Fits (c : EntriesContainer) (t : FieldTable) : Prop where
  unused : ∀ term, t.descs.length ≤ term.fieldID → c.defaultHolder.plEntries term = []
  kinds : ∀ f h, c.fieldHolder.lookup f = some h →
    ∃ desc, t.find f = some desc ∧ desc.container ≠ HolderNameDefault ∧ h.Of desc.container

theorem fresh_fits (t : FieldTable) : newFieldEntriesContainer.Fits t where
  unused _ _ := rfl
  kinds f h found := by simp [newFieldEntriesContainer] at found

theorem createHolder_cases {c c' : EntriesContainer} {desc : FieldDesc} {h : EntriesHolder}
    (run : c.createHolder desc = .ok (c', h)) :
    c.heldBy desc = some h ∧ (c' = c ∧ c.getFieldHolder desc = some h ∨
      c' = c.setHolder desc h ∧ c.getFieldHolder desc = none) := by
  unfold createHolder at run
  unfold heldBy
  split at run
  · rename_i holder found
    obtain ⟨rfl, rfl⟩ := Prod.mk.inj (Except.ok.inj run)
    exact ⟨by rw [found]; rfl, Or.inl ⟨rfl, found⟩⟩
  · rename_i missing
    split at run
    · rename_i holder made
      obtain ⟨rfl, rfl⟩ := Prod.mk.inj (Except.ok.inj run)
      exact ⟨by rw [missing, made]; rfl, Or.inr ⟨rfl, missing⟩⟩
    · cases run

theorem createHolder_fault {c : EntriesContainer} {desc : FieldDesc} {fault : Fault}
    (run : c.createHolder desc = .error fault) : newEntriesHolder desc.container = none ∧
      fault = .panic
        (.errorf "field:%s container:%s not found, plz register it" [.str desc.field, .str desc.container]) := by
  unfold createHolder at run
  split at run
  · cases run
  · split at run
    · cases run
    · rename_i missing
      exact ⟨missing, (Except.error.inj run).symm⟩

variable {c c' : EntriesContainer} {t : FieldTable} {f : BEField} {desc : FieldDesc} {h : EntriesHolder}

theorem heldBy_of (fits : c.Fits t) (known : t.find f = some desc) (held : c.heldBy desc = some h) :
    h.Of desc.container := by
  unfold heldBy getFieldHolder at held
  split at held
  · rename_i named
    obtain rfl := Option.some.inj held
    rw [EntriesHolder.Of, named]
    rfl
  · cases found : c.fieldHolder.lookup desc.field with
    | none =>
      rw [found, Option.none_or] at held
      exact EntriesHolder.of_newEntriesHolder held
    | some h' =>
      rw [found] at held
      obtain rfl := Option.some.inj held
      obtain ⟨desc', known', _, of⟩ := fits.kinds _ _ found
      rw [(FieldTable.find_mem known).2, known] at known'
      rw [Option.some.inj known']
      exact of

theorem postings_known (known : t.find f = some desc) (held : c.heldBy desc = some h) :
    c.postings t f = .ofHolder desc.id h := by
  rw [postings, known]
  simp only [held]

theorem postings_new (known : t.find f = some desc) (missing : c.getFieldHolder desc = none) :
    c.postings t f = .fresh desc.container := by
  rw [postings, known]
  simp only [heldBy, missing, Option.none_or]
  cases made : newEntriesHolder desc.container with
  | none => rw [Postings.fresh, made]
  | some h => exact Postings.ofHolder_new made _

theorem setHolder_own (notDefault : h.kind ≠ .default) :
    c.setHolder desc h = { c with fieldHolder := c.fieldHolder.insert desc.field h } := by
  cases h with
  | default d => exact absurd rfl notDefault
  | _ => rfl

theorem setHolder_postings (known : t.find f = some desc) (of : h.Of desc.container)
    (frame : ∀ d, h = .default d → ∀ term, term.fieldID ≠ desc.id → d.plEntries term = c.defaultHolder.plEntries term)
    (g : BEField) : (c.setHolder desc h).postings t g = if g = f then .ofHolder desc.id h else c.postings t g := by
  have field := (FieldTable.find_mem known).2
  by_cases isDefault : h.kind = .default
  · -- the shared holder: fields differ by their ids
    have named := of.default_iff.mp isDefault
    cases h with
    | default d =>
      have frame := frame d rfl
      by_cases same : g = f
      · subst same
        rw [if_pos rfl]
        exact postings_known known (by simp [heldBy, getFieldHolder, setHolder, named])
      · rw [if_neg same, postings, postings]
        cases other : t.find g with
        | none => rfl
        | some desc' =>
          have ne : desc'.id ≠ desc.id := by
            intro id
            have := FieldTable.id_inj (FieldTable.find_mem other).1 (FieldTable.find_mem known).1 id
            exact same ((FieldTable.find_mem other).2.symm.trans (this ▸ field))
          by_cases named' : desc'.container = HolderNameDefault
          · simp [heldBy, getFieldHolder, setHolder, named', Postings.ofHolder, frame ⟨desc'.id, _⟩ ne]
          · simp [heldBy, getFieldHolder, setHolder, named']
    | _ => cases isDefault
  · have named : desc.container ≠ HolderNameDefault := fun named => isDefault (of.default_iff.mpr named)
    rw [setHolder_own isDefault]
    by_cases same : g = f
    · subst same
      rw [if_pos rfl]
      exact postings_known known (by simp [heldBy, getFieldHolder, named, AList.lookup_insert])
    · rw [if_neg same, postings, postings]
      cases other : t.find g with
      | none => rfl
      | some desc' =>
        have ne : desc'.field ≠ desc.field := by
          rw [field, (FieldTable.find_mem other).2]
          exact same
        simp [heldBy, getFieldHolder, AList.lookup_insert_ne ne]

theorem setHolder_fits (fits : c.Fits t) (known : t.find f = some desc) (of : h.Of desc.container)
    (frame : ∀ d, h = .default d → ∀ term, term.fieldID ≠ desc.id → d.plEntries term = c.defaultHolder.plEntries term) :
    (c.setHolder desc h).Fits t := by
  obtain ⟨mem, field⟩ := FieldTable.find_mem known
  by_cases isDefault : h.kind = .default
  · cases h with
    | default d =>
      refine ⟨fun term unused => ?_, fits.kinds⟩
      have lt := FieldTable.id_lt mem
      exact (frame d rfl term (by omega)).trans (fits.unused term unused)
    | _ => cases isDefault
  · have named : desc.container ≠ HolderNameDefault := fun named => isDefault (of.default_iff.mpr named)
    rw [setHolder_own isDefault]
    refine ⟨fits.unused, fun g h' found => ?_⟩
    by_cases same : g = desc.field
    · subst same
      rw [AList.lookup_insert] at found
      obtain rfl := Option.some.inj found
      exact ⟨desc, field ▸ known, named, of⟩
    · rw [AList.lookup_insert_ne same] at found
      exact fits.kinds g h' found

theorem createHolder_spec (fits : c.Fits t) (known : t.find f = some desc) (run : c.createHolder desc = .ok (c', h)) :
    c'.Fits t ∧ c'.postings t = c.postings t ∧ h.Of desc.container ∧ c.postings t f = .ofHolder desc.id h ∧
      (∀ d, h = .default d → c'.defaultHolder = d) := by
  obtain ⟨held, source⟩ := createHolder_cases run
  have of := heldBy_of fits known held
  have shown := postings_known known held
  rcases source with ⟨rfl, found⟩ | ⟨rfl, missing⟩
  · refine ⟨fits, rfl, of, shown, ?_⟩
    rintro d rfl
    unfold getFieldHolder at found
    split at found
    · exact EntriesHolder.default.inj (Option.some.inj found)
    · obtain ⟨desc', known', named, of'⟩ := fits.kinds _ _ found
      exact absurd (of'.default_iff.mp rfl) named
  · -- a holder is only ever created outside the shared one
    have named : desc.container ≠ HolderNameDefault := by
      intro named
      simp [getFieldHolder, named] at missing
    have frame : ∀ d, h = .default d → ∀ term, term.fieldID ≠ desc.id →
        d.plEntries term = c.defaultHolder.plEntries term := by
      rintro d rfl
      exact absurd (of.default_iff.mp rfl) named
    refine ⟨setHolder_fits fits known of frame, ?_, of, shown, ?_⟩
    · funext g
      rw [setHolder_postings known of frame]
      split
      · rename_i same
        rw [same, shown]
      · rfl
    · rintro d rfl
      exact absurd (of.default_iff.mp rfl) named

theorem postings_unknown (missing : t.find f = none) : c.postings t f = .empty := by
  rw [postings, missing]

theorem add_postings (fits : c.Fits t) (container : GoString) (fresh : t.find f = none) (g : BEField) :
    c.postings (t.add f container fresh) g = if g = f then .fresh container else c.postings t g := by
  rw [postings, postings, FieldTable.find_add]
  by_cases same : g = f
  · subst same
    simp only [if_pos, heldBy, getFieldHolder]
    by_cases named : container = HolderNameDefault
    · have none : ∀ value, c.defaultHolder.plEntries ⟨t.descs.length, value⟩ = [] :=
        fun value => fits.unused _ (le_refl _)
      simp [named, Postings.fresh, Postings.ofHolder, none, newEntriesHolder, newDefaultEntriesHolder]
    · have missing : c.fieldHolder.lookup g = none := by
        rw [Option.eq_none_iff_forall_ne_some]
        intro h found
        obtain ⟨desc, known, _⟩ := fits.kinds g h found
        rw [fresh] at known
        cases known
      rw [if_neg named, missing, Option.none_or]
      cases made : newEntriesHolder container with
      | none => rw [Postings.fresh, made]
      | some h => exact Postings.ofHolder_new made _
  · rw [if_neg same, if_neg same]

theorem add_default_postings (fits : c.Fits t) (fresh : t.find f = none) :
    c.postings (t.add f HolderNameDefault fresh) = c.postings t := by
  funext g
  rw [add_postings fits]
  split
  · rename_i same
    rw [same, postings_unknown fresh]
    rfl
  · rfl

theorem add_fits (fits : c.Fits t) (container : GoString) (fresh : t.find f = none) :
    c.Fits (t.add f container fresh) where
  unused term unused := by
    have longer : (t.add f container fresh).descs.length = t.descs.length + 1 := by simp [FieldTable.add]
    exact fits.unused term (by omega)
  kinds g h found := by
    obtain ⟨desc, known, named, of⟩ := fits.kinds g h found
    refine ⟨desc, ?_, named, of⟩
    rw [FieldTable.find_add, if_neg, known]
    rintro rfl
    rw [fresh] at known
    cases known

end EntriesContainer

end BeIndexer
