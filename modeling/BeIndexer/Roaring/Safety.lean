import BeIndexer.Retrieval.Safety
import BeIndexer.Roaring.Exact

/-!
# Queries that crash an engine

Over default containers a scan panics when a container asks an array whether it is nil, and when the
parser of a field panics on the value. Of the parsers that come with the engine two do.
-/

namespace BeIndexer

/-! ### Parsers -/

section Parsers

variable [FloatOps] [GeoOps]

omit [FloatOps] in
theorem CommonStrParser.findInterfaceID_returns {p : CommonStrParser} {s : Scalar} (some : s ≠ .nil) :
    Returns (p.findInterfaceID s) := by
  cases s with
  | nil => exact absurd rfl some
  | _ => exact Or.inl ⟨_, rfl⟩

omit [FloatOps] in
/-- A nil element has no type, and `findInterfaceID` returns no error that could come before it. -/
theorem CommonStrParser.parseAssign_ifaces (p : CommonStrParser) (vs : List Scalar) :
    Returns (p.parseAssign (.ifaces (some vs))) ↔ .nil ∉ vs := by
  change Returns (vs.mapM p.findInterfaceID >>= fun found => .ok found.reduceOption) ↔ _
  constructor
  · intro returns mem
    rcases returns.of_bind with ⟨found, run⟩ | ⟨e, failed⟩
    · obtain ⟨_, _, absurd⟩ := mapM_mem run mem
      cases absurd
    · obtain ⟨s, _, absurd⟩ := mapM_error failed
      cases s <;> cases absurd
  · intro none
    refine Returns.bind (Returns.mapM fun s mem => findInterfaceID_returns ?_) fun _ _ => Or.inl ⟨_, rfl⟩
    rintro rfl
    exact none mem

omit [FloatOps] in
theorem CommonStrParser.parseAssign_returns_iff (p : CommonStrParser) {v : Value} (plain : v.isArray = false) :
    Returns (p.parseAssign v) ↔ ∀ vs, v = .ifaces (some vs) → .nil ∉ vs := by
  cases v with
  | scalar s =>
    refine iff_of_true ?_ nofun
    cases s with
    | float kind x =>
      rw [parseAssign, nilInterface_eq]
      cases p.enableFloat2Int with
      | true => exact Or.inl ⟨_, rfl⟩
      | false => exact Or.inr ⟨_, rfl⟩
    | other kind isNil =>
      rw [parseAssign, nilInterface_eq, plain]
      cases (Value.scalar (.other kind isNil)).isNil with
      | true => exact Or.inl ⟨_, rfl⟩
      | false => exact Or.inr ⟨_, rfl⟩
    | _ => exact Or.inl ⟨_, rfl⟩
  | floats kind xs =>
    refine iff_of_true ?_ nofun
    rw [parseAssign, nilInterface_eq]
    cases xs with
    | none => exact Or.inl ⟨_, rfl⟩
    | some xs =>
      cases p.enableFloat2Int with
      | true => exact Or.inl ⟨_, rfl⟩
      | false => exact Or.inr ⟨_, rfl⟩
  | ifaces vs =>
    cases vs with
    | none => exact iff_of_true (Or.inl ⟨_, rfl⟩) nofun
    | some vs =>
      rw [p.parseAssign_ifaces]
      exact ⟨fun none _ same => (Option.some.inj (Value.ifaces.inj same)) ▸ none, fun none => none vs rfl⟩
  | ints kind ns | strings ns | jsonNumbers ns =>
    refine iff_of_true ?_ nofun
    cases ns <;> exact Or.inl ⟨_, rfl⟩
  | int64Pair l r => cases plain
  | float64Pair x y => cases plain

omit [FloatOps] [GeoOps] in
theorem returns_unless_nil {α : Type} {v : Value} {a : α} {rest : Go α} (plain : v.isArray = false)
    (next : v.isNil = false → Returns rest) : Returns (do if ← nilInterface v then return a else rest) := by
  rw [nilInterface_eq, plain]
  cases isNil : v.isNil with
  | true => exact Or.inl ⟨a, rfl⟩
  | false => exact next isNil

omit [GeoOps] in
theorem NumberParser.parseOne_returns (p : NumberParser) (s : Scalar) : Returns (p.parseOne s) := by
  rw [parseOne, returns_map_iff]
  exact parseIntegerNumber_returns p.floatAsInt s

omit [GeoOps] in
theorem NumberParser.parseAssign_returns (p : NumberParser) {v : Value} (plain : v.isArray = false) :
    Returns (p.parseAssign v) := by
  have one := p.parseOne_returns
  refine returns_unless_nil plain fun some => ?_
  unfold parseValue
  split
  · cases some
  · split
    · exact Or.inl ⟨_, rfl⟩
    · exact Or.inr ⟨_, rfl⟩
  · exact Returns.mapM fun _ _ => one _
  · exact Returns.mapM fun _ _ => one _
  · exact Returns.mapM fun _ _ => one _
  · exact Returns.mapM fun _ _ => one _
  · refine Returns.mapM fun _ _ => ?_
    split
    · exact Or.inl ⟨_, rfl⟩
    · exact Or.inr ⟨_, rfl⟩
  · exact Or.inr ⟨_, rfl⟩

omit [GeoOps] in
theorem NumberRangeParser.parseAssign_returns {v : Value} (plain : v.isArray = false) :
    Returns (NumberRangeParser.parseAssign v) := by
  have one : ∀ s, Returns ((parseIntegerNumber true s).map Int64.toUInt64) := NumberParser.parseOne_returns ⟨true⟩
  refine returns_unless_nil plain fun _ => ?_
  dsimp only
  split
  · exact Returns.bind (one _) fun _ _ => Or.inl ⟨_, rfl⟩
  · exact Returns.bind (one _) fun _ _ => Or.inl ⟨_, rfl⟩
  · exact Returns.bind (one _) fun _ _ => Or.inl ⟨_, rfl⟩
  · exact Returns.bind (Returns.mapM fun _ _ => one _) fun _ _ => Or.inr ⟨_, rfl⟩
  · exact Returns.bind (Returns.mapM fun _ _ => one _) fun _ _ => Or.inr ⟨_, rfl⟩
  · exact Returns.bind (Returns.mapM fun _ _ => one _) fun _ _ => Or.inr ⟨_, rfl⟩
  · exact Returns.bind (Returns.mapM fun _ _ => one _) fun _ _ => Or.inr ⟨_, rfl⟩
  · exact Returns.bind (Returns.mapM fun _ _ => one _) fun _ _ => Or.inr ⟨_, rfl⟩
  · exact Or.inr ⟨_, rfl⟩

omit [FloatOps] [GeoOps] in
theorem StrHashParser.parseAssign_returns {v : Value} (plain : v.isArray = false) :
    Returns (StrHashParser.parseAssign v) := by
  refine returns_unless_nil plain fun _ => ?_
  unfold parseValue
  split
  · exact Or.inl ⟨_, rfl⟩
  · exact Or.inl ⟨_, rfl⟩
  · refine Returns.mapM fun s _ => ?_
    cases s with
    | string s => exact Or.inl ⟨_, rfl⟩
    | _ => exact Or.inr ⟨_, rfl⟩
  · exact Or.inr ⟨_, rfl⟩

/-- A prefix is cut off the code only within its twelve characters. -/
def GeoHashParser.CutsOff (p : GeoHashParser) : Prop :=
  p.option.precision < 0 ∨ ∃ i ∈ p.lengths, i < 0 ∨ i > 12

omit [FloatOps] in
theorem GeoHashParser.genQueryAssignGeoHash_returns_iff (p : GeoHashParser) (lat lon : GoFloat) :
    Returns (p.genQueryAssignGeoHash lat lon) ↔ ¬ p.CutsOff := by
  have length : ((GeoOps.encode lat lon).length : Int) = 12 := congrArg Nat.cast (GeoOps.encode_length lat lon)
  have cut : ∀ i, takeCode (GeoOps.encode lat lon) i =
      if i < 0 ∨ i > 12 then panicf "slice bounds out of range" [] else .ok ((GeoOps.encode lat lon).take i.toNat) := by
    intro i
    rw [takeCode, length]
  by_cases negative : p.option.precision < 0
  · have panics : p.genQueryAssignGeoHash lat lon = panicf "makeslice: cap out of range" [] := by
      rw [genQueryAssignGeoHash, decide_eq_true negative]
      rfl
    exact iff_of_false (not_returns_panic panics) (fun fine => fine (Or.inl negative))
  · have start : p.genQueryAssignGeoHash lat lon = p.lengths.mapM (takeCode (GeoOps.encode lat lon)) := by
      rw [genQueryAssignGeoHash, decide_eq_false negative]
      rfl
    rw [start]
    constructor
    · rintro returns (absurd | ⟨i, mem, outside⟩)
      · exact negative absurd
      rcases returns with ⟨codes, run⟩ | ⟨e, failed⟩
      · obtain ⟨_, _, made⟩ := mapM_mem run mem
        rw [cut, if_pos outside] at made
        cases made
      · obtain ⟨j, _, bad⟩ := mapM_error failed
        rw [cut] at bad
        split at bad <;> cases bad
    · intro fine
      refine Returns.mapM fun i mem => Or.inl ?_
      rw [cut, if_neg fun outside => fine (Or.inr ⟨i, mem, outside⟩)]
      exact ⟨_, rfl⟩

theorem GeoHashParser.parseAssign_returns_iff (p : GeoHashParser) {v : Value} (plain : v.isArray = false) :
    Returns (p.generator.parseAssign v) ↔ ∀ lat lon, v = .floats .float64 (some [lat, lon]) → ¬ p.CutsOff := by
  have whole : Returns (p.generator.parseAssign v) ↔ Returns (p.tokenizeAssign v) :=
    ⟨fun returns => returns.of_bind, fun returns => Returns.bind returns fun _ _ => Or.inl ⟨_, rfl⟩⟩
  rw [whole]
  unfold tokenizeAssign
  split
  · cases plain
  · rename_i xs
    split
    · rename_i lat lon pair
      rw [p.genQueryAssignGeoHash_returns_iff]
      obtain rfl : xs = some [lat, lon] := by
        cases xs with
        | none => cases pair
        | some xs => exact congrArg some pair
      exact ⟨fun fine _ _ _ => fine, fun fine => fine lat lon rfl⟩
    · rename_i other
      refine iff_of_true (Or.inr ⟨_, rfl⟩) fun lat lon same => ?_
      exact absurd (congrArg Slice.elems (Value.floats.inj same).2) (other lat lon)
  · rename_i other
    refine iff_of_true (Or.inr ⟨_, rfl⟩) fun lat lon same => ?_
    exact absurd same (other _)

/-- The parsers that come with the engine. -/
inductive ShippedParser where
  | common (p : CommonStrParser)
  | number (p : NumberParser)
  | numberRange
  | strHash
  | geoHash (p : GeoHashParser)

namespace ShippedParser

def generator : ShippedParser → ValueIDGenerator
  | .common p => p.generator
  | .number p => p.generator
  | .numberRange => NumberRangeParser.generator
  | .strHash => StrHashParser.generator
  | .geoHash p => p.generator

omit [FloatOps] [GeoOps] in
/-- The values that are no arrays and that a parser panics on. -/
def PanicsOn (v : Value) : ShippedParser → Prop
  | .common _ => ∃ vs, v = .ifaces (some vs) ∧ .nil ∈ vs
  | .geoHash p => (∃ lat lon, v = .floats .float64 (some [lat, lon])) ∧ p.CutsOff
  | _ => False

theorem parseAssign_returns_iff (p : ShippedParser) {v : Value} (plain : v.isArray = false) :
    Returns (p.generator.parseAssign v) ↔ ¬ p.PanicsOn v := by
  cases p with
  | common p =>
    refine (p.parseAssign_returns_iff plain).trans ?_
    simp [PanicsOn]
  | number p => exact iff_of_true (p.parseAssign_returns plain) (fun absurd => absurd)
  | numberRange => exact iff_of_true (NumberRangeParser.parseAssign_returns plain) (fun absurd => absurd)
  | strHash => exact iff_of_true (StrHashParser.parseAssign_returns plain) (fun absurd => absurd)
  | geoHash p =>
    refine (p.parseAssign_returns_iff plain).trans ?_
    simp [PanicsOn]

omit [FloatOps] [GeoOps] in
theorem PanicsOn.not_nil {p : ShippedParser} {v : Value} (panics : p.PanicsOn v) : v.isNil = false := by
  cases p with
  | common p =>
    obtain ⟨_, rfl, _⟩ := panics
    rfl
  | geoHash p =>
    obtain ⟨⟨_, _, rfl⟩, _⟩ := panics
    rfl
  | _ => exact panics.elim

end ShippedParser

end Parsers

namespace Roaring

open Calls

/-! ### Builders -/

/-- A builder after calls that keep to default containers; documents may be rejected. -/
def IvtBEIndexerBuilder.Reached (b : IvtBEIndexerBuilder) : Prop :=
  ∃ docs, Run (fun option => option.container = ContainerNameDefault) (fun _ => True) b docs

theorem IvtBEIndexerBuilder.Reached.defaults {b : IvtBEIndexerBuilder} (reached : b.Reached) :
    ∀ field kind, b.kinds field = some kind → ∃ parser, kind = .default parser := by
  obtain ⟨docs, reached⟩ := reached
  induction reached with
  | new defaultParser => exact fun field kind known => nomatch known
  | withErrPanic panics _ ih => exact ih
  | @configured _ b b' field option r _ may run ih =>
    obtain ⟨parser, container⟩ := option
    obtain rfl : container = ContainerNameDefault := may
    rw [configureField_default] at run
    obtain ⟨rfl, _⟩ := Prod.mk.inj (Except.ok.inj run)
    intro g kind known
    rw [kinds] at known
    by_cases same : g = field
    · rw [same, AList.lookup_insert] at known
      exact ⟨_, (Option.some.inj known).symm⟩
    · rw [AList.lookup_insert_ne same] at known
      exact ih g kind known
  | @added _ b b' orders doc r _ run _ ih =>
    rw [(addDocument_wrote run).1]
    exact ih

/-! ### Scans -/

theorem DefaultBEContainer.retrieve_returns_iff (c : DefaultBEContainer) (v : Value) :
    Returns (c.retrieve v ∅) ↔ v.isArray = false ∧ (v.isNil = false → Returns (c.parser.parseAssign v)) := by
  cases array : v.isArray with
  | true =>
    obtain ⟨e, panics⟩ := c.retrieve_array array
    exact iff_of_false (not_returns_panic panics) (fun both => absurd both.1 (by decide))
  | false =>
    rw [c.retrieve_eq array, queryIDs, returns_map_iff]
    cases isNil : v.isNil with
    | true => exact iff_of_true (Or.inl ⟨_, rfl⟩) ⟨rfl, by simp⟩
    | false => exact ⟨fun returns => ⟨rfl, fun _ => returns⟩, fun both => both.2 rfl⟩

namespace IvtScanner

variable {indexer : IvtBEIndexer} {q : Assignments}

theorem retrieveFrom_returns {es : List (Sigma fun _ : BEField => BEContainer)} {s : IvtScanner}
    (returns : ∀ e ∈ es, Returns (answer q e)) : ∃ o, s.retrieveFrom q es = .ok o := by
  induction es generalizing s with
  | nil => exact ⟨_, rfl⟩
  | cons e es ih =>
    cases ended : s.ended with
    | true => exact ⟨_, retrieveFrom_ended ended⟩
    | false =>
      rcases returns e List.mem_cons_self with ⟨pl, answered⟩ | ⟨err, failed⟩
      · rw [retrieveFrom_step ended answered]
        exact ih fun e mem => returns e (List.mem_cons_of_mem _ mem)
      · exact ⟨_, retrieveFrom_error ended failed⟩

/-- A scan returns in any state and any order exactly if no container panics. -/
theorem returns_iff : (∀ s, Reached indexer s → ∀ visit : s.indexer.data.Visit, ∃ o, s.retrieve q visit = .ok o) ↔
    ∀ e ∈ indexer.data.entries, Returns (answer q e) := by
  constructor
  · intro returns e mem
    by_contra not
    obtain ⟨fault, faulted, notErr⟩ := fault_of_not_returns not
    obtain ⟨rest, perm⟩ := GoMap.exists_visit_first mem
    have first : ∀ visit : indexer.data.Visit, ∃ o, (newScanner indexer).retrieve q visit = .ok o := returns _ ⟨_, .new⟩
    obtain ⟨o, run⟩ := first ⟨e :: rest, perm⟩
    rw [retrieve_new, retrieveFrom_fault rfl faulted notErr] at run
    cases run
  · intro returns s reached visit
    have fine : ∀ e ∈ visit.1, Returns (answer q e) := by
      intro e mem
      have listed := visit.2.mem_iff.mp mem
      rw [reached.indexer] at listed
      exact returns e listed
    obtain ⟨⟨s', r⟩, run⟩ := retrieveFrom_returns fine (s := s)
    cases r with
    | ok u => exact ⟨_, by rw [retrieve, run]; rfl⟩
    | error e => exact ⟨_, by rw [retrieve, run]; rfl⟩

variable [AhoMachine] [FloatOps] [GeoOps]

theorem shipped_returns_iff {b : IvtBEIndexerBuilder} (reached : b.Reached) (built : b.buildIndexer = .ok indexer)
    {shipped : BEField → ShippedParser}
    (ships : ∀ field parser, b.parser field = some parser → parser = (shipped field).generator) :
    (∀ s, Reached indexer s → ∀ visit : s.indexer.data.Visit, ∃ o, s.retrieve q visit = .ok o) ↔
      ∀ field, (b.parser field).isSome = true →
        (assigned q field).isArray = false ∧ ¬ (shipped field).PanicsOn (assigned q field) := by
  have asked : ∀ field (c : DefaultBEContainer), b.containerBuilder.lookup field = some (.default c) →
      (Returns (c.retrieve (assigned q field) ∅) ↔
        (assigned q field).isArray = false ∧ ¬ (shipped field).PanicsOn (assigned q field)) := by
    intro field c found
    rw [c.retrieve_returns_iff, ships field _ (IvtBEIndexerBuilder.parser_of_lookup found)]
    refine and_congr_right fun plain => ?_
    rw [(shipped field).parseAssign_returns_iff plain]
    exact ⟨fun fine panics => fine panics.not_nil panics, fun fine _ => fine⟩
  rw [returns_iff]
  constructor
  · intro returns field known
    obtain ⟨parser, known⟩ := Option.isSome_iff_exists.mp known
    obtain ⟨c, found, _⟩ := IvtBEIndexerBuilder.lookup_of_kind (IvtBEIndexerBuilder.parser_eq_some.mp known)
    refine (asked field c found).mp (returns ⟨field, ⟨c.retrieve⟩⟩ ?_)
    exact (IvtBEIndexerBuilder.mem_data built reached.defaults).mpr ⟨c, found, rfl⟩
  · intro fine e mem
    obtain ⟨c, found, made⟩ := (IvtBEIndexerBuilder.mem_data built reached.defaults).mp mem
    rw [answer, made]
    exact (asked e.1 c found).mpr (fine e.1 (by rw [IvtBEIndexerBuilder.parser_of_lookup found]; rfl))

end IvtScanner

end Roaring

/-! ### All engines -/

/-- A query crashes no engine exactly under these conditions. The size-grouped index needs a query without
arrays, the compact one has no array on a field with a range holder, and a scan of the roaring index has on
no configured field an array or a value that the field's parser panics on. -/
theorem queries_return_iff [FloatOps] [GeoOps] [Codec] [AhoMachine] :
    (∀ (option : BuilderOption) (ops : List Op) (b b' : IndexerBuilder) (q : Assignments),
      (∀ cache ∈ option.docLevelCache, cache.Valid) → (∀ op ∈ ops, op.Plain) → IndexerBuilder.run option ops = .ok b →
      b.buildIndex = .ok b' →
      ((∀ visits, Returns (b'.indexer.retrieve q visits)) ↔
        ∀ a ∈ q.entries, a.2.isArray = true → b.indexer.isCompact = true ∧ ∀ desc h,
          b.fieldsData.find a.1 = some desc → (b.indexer.container 0).getFieldHolder desc ≠ some (.range h))) ∧
    ∀ (b : Roaring.IvtBEIndexerBuilder) (indexer : Roaring.IvtBEIndexer) (shipped : BEField → ShippedParser)
      (q : Assignments), b.Reached → b.buildIndexer = .ok indexer →
      (∀ field parser, b.parser field = some parser → parser = (shipped field).generator) →
      ((∀ s, Roaring.IvtScanner.Reached indexer s → ∀ visit : s.indexer.data.Visit, ∃ o, s.retrieve q visit = .ok o) ↔
        ∀ field, (b.parser field).isSome = true → (Roaring.assigned q field).isArray = false ∧
          ¬ (shipped field).PanicsOn (Roaring.assigned q field)) := by
  constructor
  · intro option ops b b' q cache plain reached built
    exact IndexerBuilder.returns_iff (IndexerBuilder.run_sane cache plain reached) built
  · intro b indexer shipped q reached built ships
    exact Roaring.IvtScanner.shipped_returns_iff reached built ships

/-- A compact index does not look at an array on a field that it does not know, and no scan at one. -/
theorem queries_return_unknown :
    letI := FloatOps.noFloats
    letI := GeoOps.nowhere
    letI := Codec.single [] [] ⟨.eq, false, []⟩ []
    letI := AhoMachine.naive
    let doc : Document := ⟨7, 0, [⟨.singleton (str "age") [⟨true, .ints .int (some [3, 4]), .eq⟩]⟩]⟩
    let q : Assignments := .insert (str "place") (.float64Pair ⟨0⟩ ⟨0⟩) (.singleton (str "age") (.scalar (.int .int 4)))
    (∃ b b', IndexerBuilder.run ⟨.compact, .error, none⟩
        [.configField .id (str "age") HolderNameExtendRange, .addDocument .id [doc]] = .ok b ∧
      b.buildIndex = .ok b' ∧ ∀ visits, Returns (b'.indexer.retrieve q visits)) ∧
    ∃ b b' indexer r, (Roaring.IvtBEIndexerBuilder.newIndexerBuilder newCommonParser.generator).configureField
        (str "age") ⟨none, Roaring.ContainerNameDefault⟩ = .ok (b, .ok ()) ∧
      b.addDocument (fun _ => .id) doc = .ok (b', r) ∧ b'.buildIndexer = .ok indexer ∧
      ∀ s, Roaring.IvtScanner.Reached indexer s → ∀ visit : s.indexer.data.Visit, ∃ o, s.retrieve q visit = .ok o := by
  let _ := FloatOps.noFloats
  let _ := GeoOps.nowhere
  let _ := Codec.single [] [] ⟨.eq, false, []⟩ []
  let _ := AhoMachine.naive
  intro doc q
  constructor
  · obtain ⟨b, reached, seen⟩ : ∃ b, IndexerBuilder.run ⟨.compact, .error, none⟩
        [.configField .id (str "age") HolderNameExtendRange, .addDocument .id [doc]] = .ok b ∧
        (b.indexer.isCompact && (b.fieldsData.find (str "place")).isNone &&
          okAnd (fun _ => true) b.buildIndex) = true :=
      okAnd_iff.mp (by decide +kernel)
    simp only [Bool.and_eq_true, Option.isNone_iff_eq_none, okAnd_iff, and_true] at seen
    obtain ⟨⟨compact, unknown⟩, b', built⟩ := seen
    refine ⟨b, b', reached, built, (queries_return_iff.1 _ _ b b' q (by rintro cache ⟨⟩) ?_ reached built).mpr ?_⟩
    · intro op mem
      rcases List.mem_pair.mp mem with rfl | rfl
      · exact Or.inr (List.mem_cons_of_mem _ List.mem_cons_self)
      · trivial
    · intro a mem array
      rcases List.mem_pair.mp mem with rfl | rfl
      · refine ⟨compact, fun desc h known => ?_⟩
        rw [unknown] at known
        cases known
      · cases array
  · obtain ⟨b, configured, b', r, added, seen⟩ : ∃ b, (Roaring.IvtBEIndexerBuilder.newIndexerBuilder
          newCommonParser.generator).configureField (str "age") ⟨none, Roaring.ContainerNameDefault⟩ = .ok (b, .ok ()) ∧
        ∃ b' r, b.addDocument (fun _ => .id) doc = .ok (b', .ok r) ∧ okAnd (fun _ => true) b'.buildIndexer = true :=
      ⟨_, rfl, Calls.finished_iff.mp (by decide +kernel)⟩
    obtain ⟨indexer, built, _⟩ := okAnd_iff.mp seen
    have kinds := (Roaring.IvtBEIndexerBuilder.addDocument_ok added).2.1
    have parsers : ∀ field parser, b'.parser field = some parser →
        field = str "age" ∧ parser = newCommonParser.generator := by
      intro field parser known
      rw [Roaring.IvtBEIndexerBuilder.configureField_default] at configured
      obtain ⟨rfl, _⟩ := Prod.mk.inj (Except.ok.inj configured)
      rw [Roaring.IvtBEIndexerBuilder.parser_eq_some, kinds, Roaring.IvtBEIndexerBuilder.kinds] at known
      by_cases same : field = str "age"
      · rw [same, AList.lookup_insert] at known
        exact ⟨same, (Roaring.ContainerKind.default.inj (Option.some.inj known)).symm⟩
      · rw [AList.lookup_insert_ne same] at known
        cases known
    have reached : b'.Reached := ⟨_, .added (.configured (.new _) rfl configured) added trivial⟩
    refine ⟨b, b', indexer, .ok r, configured, added, built, ?_⟩
    refine (queries_return_iff.2 b' indexer (fun _ => .common newCommonParser) q reached built
      fun field parser known => (parsers field parser known).2).mpr fun field known => ?_
    obtain ⟨parser, known⟩ := Option.isSome_iff_exists.mp known
    obtain ⟨rfl, _⟩ := parsers field parser known
    exact ⟨rfl, by rintro ⟨vs, ⟨⟩, _⟩⟩

/-- An array crashes the size-grouped index on any field, the compact one on a field with a range holder,
and a nil element of a slice crashes a scan with the common parser. -/
theorem queries_crash :
    letI := FloatOps.noFloats
    letI := GeoOps.nowhere
    letI := Codec.single [] [] ⟨.eq, false, []⟩ []
    letI := AhoMachine.naive
    let doc : Document := ⟨7, 0, [⟨.singleton (str "age") [⟨true, .ints .int (some [3, 4]), .eq⟩]⟩]⟩
    let place : Assignments := .singleton (str "place") (.float64Pair ⟨0⟩ ⟨0⟩)
    let pair : Assignments := .singleton (str "age") (.int64Pair 3 4)
    let nils : Assignments := .singleton (str "age") (.ifaces (some [.nil]))
    (∃ b b' e, IndexerBuilder.run ⟨.default, .error, none⟩ [.addDocument .id [doc]] = .ok b ∧ b.buildIndex = .ok b' ∧
      b'.indexer.retrieve place (fun _ => ⟨place.entries, .refl _⟩) = .error (.panic e)) ∧
    (∃ b b' e, IndexerBuilder.run ⟨.compact, .error, none⟩
        [.configField .id (str "age") HolderNameExtendRange, .addDocument .id [doc]] = .ok b ∧ b.buildIndex = .ok b' ∧
      b'.indexer.retrieve pair (fun _ => ⟨pair.entries, .refl _⟩) = .error (.panic e)) ∧
    ∃ b b' indexer e, (Roaring.IvtBEIndexerBuilder.newIndexerBuilder newCommonParser.generator).configureField
        (str "age") ⟨none, Roaring.ContainerNameDefault⟩ = .ok (b, .ok ()) ∧
      b.addDocument (fun _ => .id) doc = .ok (b', .ok ()) ∧ b'.buildIndexer = .ok indexer ∧
      (Roaring.newScanner indexer).retrieve nils ⟨indexer.data.entries, .refl _⟩ = .error (.panic e) := by
  let _ := FloatOps.noFloats
  let _ := GeoOps.nowhere
  let _ := Codec.single [] [] ⟨.eq, false, []⟩ []
  let _ := AhoMachine.naive
  intro doc place pair nils
  have crashes : ∀ option ops (q : Assignments),
      okAnd (fun b => okAnd (fun b' => panics (b'.indexer.retrieve q (fun _ => ⟨q.entries, .refl _⟩))) b.buildIndex)
        (IndexerBuilder.run option ops) = true →
      ∃ b b' e, IndexerBuilder.run option ops = .ok b ∧ b.buildIndex = .ok b' ∧
        b'.indexer.retrieve q (fun _ => ⟨q.entries, .refl _⟩) = .error (.panic e) := by
    intro option ops q seen
    obtain ⟨b, reached, seen⟩ := okAnd_iff.mp seen
    obtain ⟨b', built, seen⟩ := okAnd_iff.mp seen
    obtain ⟨e, crashed⟩ := panics_iff.mp seen
    exact ⟨b, b', e, reached, built, crashed⟩
  refine ⟨crashes _ _ _ (by decide +kernel), crashes _ _ _ (by decide +kernel), ?_⟩
  obtain ⟨b, configured, b', r, added, seen⟩ : ∃ b, (Roaring.IvtBEIndexerBuilder.newIndexerBuilder
        newCommonParser.generator).configureField (str "age") ⟨none, Roaring.ContainerNameDefault⟩ = .ok (b, .ok ()) ∧
      ∃ b' r, b.addDocument (fun _ => .id) doc = .ok (b', .ok r) ∧ okAnd (fun indexer =>
        panics ((Roaring.newScanner indexer).retrieve nils ⟨indexer.data.entries, .refl _⟩)) b'.buildIndexer = true :=
    ⟨_, rfl, Calls.finished_iff.mp (by decide +kernel)⟩
  obtain ⟨indexer, built, seen⟩ := okAnd_iff.mp seen
  obtain ⟨e, crashed⟩ := panics_iff.mp seen
  exact ⟨b, b', indexer, e, configured, added, built, crashed⟩

end BeIndexer
