import BeIndexer.Retrieval.Meaning
import BeIndexer.Roaring.Hints
import BeIndexer.Roaring.Values

/-!
# The two engines

The library has two indexes that were written apart: one scans sorted posting lists by the sizes of
conjunctions, the other intersects bitmaps of hashed values. Fields in default containers are read in
the same way by both as long as numbers are printed alike and no hashes collide, and then both return
the same documents.
-/

namespace BeIndexer

open Calls CommonStrParser

section Values

variable [FloatOps] [GeoOps]

/-- The tokenizer prints the scalar as the roaring index does, which truncates floating point numbers. -/
def Scalar.PrintsAlike : Scalar → Prop
  | .float kind x => FloatOps.sprintV kind x = sprintUint x
  | _ => True

def Value.PrintsAlike : Value → Prop
  | .scalar s => s.PrintsAlike
  | .floats kind xs => ∀ x ∈ xs.elems, FloatOps.sprintV kind x = sprintUint x
  | .ifaces vs => ∀ s ∈ vs.elems, s.PrintsAlike
  | _ => True

instance (s : Scalar) : Decidable s.PrintsAlike :=
  match s with
  | .float kind x => inferInstanceAs (Decidable (FloatOps.sprintV kind x = sprintUint x))
  | .nil | .int _ _ | .string _ | .jsonNumber _ | .other _ _ => .isTrue trivial

instance (v : Value) : Decidable v.PrintsAlike :=
  match v with
  | .scalar s => inferInstanceAs (Decidable s.PrintsAlike)
  | .floats kind xs => inferInstanceAs (Decidable (∀ x ∈ xs.elems, FloatOps.sprintV kind x = sprintUint x))
  | .ifaces vs => inferInstanceAs (Decidable (∀ s ∈ vs.elems, s.PrintsAlike))
  | .ints _ _ | .strings _ | .jsonNumbers _ | .int64Pair _ _ | .float64Pair _ _ => .isTrue trivial

variable {hashFn : GoString → UInt64} {v : Value}

theorem valueToString_render {s : Scalar} (supported : s.Supported) (alike : s.PrintsAlike) :
    valueToString s = .ok (render s) := by
  cases s with
  | nil | other => cases supported
  | float kind x => exact congrArg Except.ok alike
  | string | jsonNumber | int => rfl

theorem tokens_render {elems : List Scalar} (supported : v.Supported) (alike : v.PrintsAlike)
    (slice : v.elements = some elems) : valuesToStrings v = .ok (elems.map render) := by
  cases v with
  | scalar | int64Pair | float64Pair => cases slice
  | ifaces vs =>
    obtain rfl := Option.some.inj slice
    exact mapM_pure fun s mem => valueToString_render (supported s mem) (alike s mem)
  | floats kind xs =>
    obtain rfl := Option.some.inj slice
    rw [List.map_map]
    exact congrArg Except.ok (List.map_congr_left alike)
  | ints kind xs | strings xs | jsonNumbers xs =>
    obtain rfl := Option.some.inj slice
    rw [List.map_map]
    exact congrArg Except.ok (by simp [Function.comp_def, render])

omit [FloatOps] [GeoOps] in
theorem nil_elements {elems : List Scalar} (isNil : v.isNil = true) (slice : v.elements = some elems) : elems = [] := by
  cases v with
  | scalar | int64Pair | float64Pair => cases slice
  | ints kind xs | floats kind xs | strings xs | jsonNumbers xs | ifaces xs =>
    cases xs with
    | none => exact (Option.some.inj slice).symm
    | some xs => cases isNil

theorem parseValue_tokens {ids : List UInt64} (alike : v.PrintsAlike) (run : (hashed hashFn).parseValue v = .ok ids) :
    ∃ tokens, tokenizeValue v = .ok tokens ∧ ids = tokens.map hashFn := by
  cases v with
  | int64Pair | float64Pair => cases run
  | scalar s =>
    cases s with
    | nil | other => cases run
    | float kind x =>
      obtain rfl := Except.ok.inj run
      exact ⟨_, rfl, congrArg (fun token => [hashFn token]) alike.symm⟩
    | string | jsonNumber | int =>
      obtain rfl := Except.ok.inj run
      exact ⟨_, rfl, rfl⟩
  | ifaces vs =>
    have supported : Value.Supported (.ifaces vs) := by
      intro s mem
      obtain ⟨id, _, found⟩ := mapM_mem run mem
      cases s with
      | nil | other => cases found
      | _ => trivial
    refine ⟨_, tokens_render supported alike rfl, ?_⟩
    rw [parseValue_slice hashFn supported rfl (by simp)] at run
    rw [List.map_map, ← Except.ok.inj run]
    rfl
  | ints | floats | strings | jsonNumbers =>
    obtain rfl := Except.ok.inj run
    refine ⟨_, rfl, ?_⟩
    simp [newHashAllocator, Function.comp_def]

theorem queryIDs_tokens {tokens : List GoString} (alike : v.PrintsAlike) (run : tokenizeAssign v = .ok tokens) :
    Roaring.queryIDs (hashed hashFn).generator v = .ok (tokens.map hashFn) := by
  have slices : ∀ elems, v.elements = some elems → v.Supported →
      Roaring.queryIDs (hashed hashFn).generator v = .ok (tokens.map hashFn) := by
    intro elems slice supported
    have same := Except.ok.inj (run.symm.trans (tokens_render supported alike slice))
    unfold Roaring.queryIDs
    split
    · rename_i isNil
      rw [same, nil_elements isNil slice]
      rfl
    · rw [same, List.map_map]
      exact parseAssign_slice hashFn supported slice
  cases v with
  | int64Pair | float64Pair => cases run
  | scalar s =>
    cases s with
    | other => cases run
    | nil =>
      obtain rfl := Except.ok.inj run
      rfl
    | float kind x =>
      obtain rfl := Except.ok.inj run
      exact congrArg (fun token => Except.ok [hashFn token]) alike.symm
    | string | jsonNumber | int =>
      obtain rfl := Except.ok.inj run
      rfl
  | ifaces vs =>
    refine slices _ rfl fun s mem => ?_
    obtain ⟨token, _, printed⟩ := mapM_mem run mem
    cases s with
    | nil | other => cases printed
    | _ => trivial
  | ints | floats | strings | jsonNumbers => exact slices _ rfl trivial

end Values

/-! ### Documents -/

namespace Roaring

open IvtBEIndexerBuilder

namespace IvtBEIndexerBuilder

variable {b b' : IvtBEIndexerBuilder}

theorem addDocument_known {orders : Nat → KeyOrder} {doc : Document} (run : b.addDocument orders doc = .ok (b', .ok ()))
    {conj : Conjunction} (mem : conj ∈ doc.cons) {field : BEField} (some : conj.exprs field ≠ []) :
    (b.kinds field).isSome = true := by
  obtain ⟨succeed, _⟩ := addDocument_ok run
  obtain ⟨i, bound, rfl⟩ := List.mem_iff_getElem.mp mem
  have listed : (doc.cons[i], i) ∈ doc.cons.zipIdx := List.mk_mem_zipIdx_iff_getElem?.mpr (by simp [bound])
  have here := succeed_flatMap.mp succeed _ listed
  obtain ⟨id, made, _⟩ := conjSteps_succeed here
  unfold conjSteps at here
  rw [made] at here
  dsimp only at here
  split at here
  · obtain ⟨_, absurd⟩ := here _ List.mem_cons_self
    cases absurd
  · rename_i none
    have all := List.find?_eq_none.mp none field
    simp only [Bool.not_eq_true', Bool.not_eq_false] at all
    refine all ?_
    unfold Conjunction.exprs at some
    cases found : doc.cons[i].expressions.lookup field with
    | none =>
      rw [found] at some
      exact absurd rfl some
    | some exprs => exact List.mem_map.mpr ⟨⟨field, exprs⟩, AList.mem_lookup_iff.mp found, rfl⟩

theorem addDocuments_known {docs : List ((Nat → KeyOrder) × Document)} {us : List Unit}
    (run : b.addDocuments docs = .ok (b', .ok us)) {doc : Document} (hdoc : doc ∈ docs.map Prod.snd)
    {conj : Conjunction}
    (mem : conj ∈ doc.cons) {field : BEField} (some : conj.exprs field ≠ []) : (b.kinds field).isSome = true := by
  induction docs generalizing b us with
  | nil => cases hdoc
  | cons first docs ih =>
    obtain ⟨b₁, u, us', run₁, others, _⟩ := mapCalls_cons_ok.mp run
    rcases List.mem_cons.mp hdoc with rfl | later
    · exact addDocument_known run₁ mem some
    · rw [← (addDocument_loaded run₁).kinds]
      exact ih others later

end IvtBEIndexerBuilder

end Roaring

/-! ### Conjunctions -/

section Conjunctions

variable [FloatOps] [GeoOps] {q : Assignments} {conj : Conjunction}

omit [GeoOps] in
theorem metIn_default (bv : BoolValues) (f : BEField) :
    (∃ v, q.lookup f = some v ∧ bv.MetIn HolderNameDefault v) ↔ bv.Shares (q.tokens f) := by
  have other : HolderNameDefault ≠ HolderNameExtendRange := by decide
  unfold Assignments.tokens
  simp only [BoolValues.MetIn, if_neg other]
  cases q.lookup f with
  | none => simp [BoolValues.Shares]
  | some v =>
    cases run : tokenizeAssign v with
    | error fault => simp [BoolValues.Shares, Except.toOption, run]
    | ok tokens => simp [Except.toOption, run]

def Conjunction.PrintsAlike (conj : Conjunction) : Prop :=
  ∀ e ∈ conj.expressions.entries, ∀ bv ∈ e.2, bv.value.PrintsAlike

instance (conj : Conjunction) : Decidable conj.PrintsAlike :=
  inferInstanceAs (Decidable (∀ e ∈ conj.expressions.entries, ∀ bv ∈ e.2, bv.value.PrintsAlike))

/-- No token of the conjunction collides with another token of the query on the same field. -/
def Conjunction.ApartFrom (q : Assignments) (conj : Conjunction) : Prop :=
  ∀ e ∈ conj.expressions.entries, ∀ bv ∈ e.2, ∀ token ∈ bv.tokens, ∀ asked ∈ q.tokens e.1,
    fnvHashString token = fnvHashString asked → token = asked

instance (q : Assignments) (conj : Conjunction) : Decidable (conj.ApartFrom q) :=
  inferInstanceAs (Decidable (∀ e ∈ conj.expressions.entries, ∀ bv ∈ e.2, ∀ token ∈ bv.tokens, ∀ asked ∈ q.tokens e.1,
    fnvHashString token = fnvHashString asked → token = asked))

theorem queryIDs_assigned (reads : ∀ a ∈ q.entries, ∃ tokens, tokenizeAssign a.2 = .ok tokens)
    (alike : ∀ a ∈ q.entries, a.2.PrintsAlike) (f : BEField) :
    Roaring.queryIDs newCommonParser.generator (Roaring.assigned q f) = .ok ((q.tokens f).map fnvHashString) := by
  unfold Roaring.assigned Assignments.tokens
  cases found : q.lookup f with
  | none => rfl
  | some v =>
    have mem := AList.mem_lookup_iff.mp found
    obtain ⟨tokens, run⟩ := reads _ mem
    dsimp only [Option.getD_some]
    rw [run]
    exact queryIDs_tokens (alike _ mem) run

theorem shares_iff {bv : BoolValues} {f : BEField} {ids : List UInt64} (alike : bv.value.PrintsAlike)
    (apart : ∀ token ∈ bv.tokens, ∀ asked ∈ q.tokens f, fnvHashString token = fnvHashString asked → token = asked)
    (parsed : newCommonParser.parseValue bv.value = .ok ids) :
    Roaring.Shares newCommonParser.generator ((q.tokens f).map fnvHashString) bv ↔ bv.Shares (q.tokens f) := by
  obtain ⟨tokens, run, rfl⟩ := parseValue_tokens alike parsed
  have same : bv.tokens = tokens := by
    unfold BoolValues.tokens
    rw [run]
    rfl
  unfold Roaring.Shares BoolValues.Shares
  rw [same] at apart ⊢
  constructor
  · intro shares
    obtain ⟨values, parsed', value, mem, asked⟩ := shares
    obtain rfl := Except.ok.inj (parsed.symm.trans parsed')
    obtain ⟨token, listed, rfl⟩ := List.mem_map.mp mem
    obtain ⟨other, asks, hash⟩ := List.mem_map.mp asked
    obtain rfl := apart token listed other asks hash.symm
    exact ⟨token, listed, asks⟩
  · intro shares
    obtain ⟨token, listed, asks⟩ := shares
    exact ⟨_, parsed, _, List.mem_map_of_mem listed, List.mem_map_of_mem asks⟩

omit [FloatOps] [GeoOps] in
theorem accepts_iff_met {parser : ValueIDGenerator} {ids : List UInt64} {exprs : List BoolValues}
    {Met : BoolValues → Prop} (shares : ∀ bv ∈ exprs, Roaring.Shares parser ids bv ↔ Met bv) :
    Roaring.Accepts parser ids exprs ↔ ((∃ bv ∈ exprs, bv.incl = true) → ∃ bv ∈ exprs, bv.incl = true ∧ Met bv) ∧
      ∀ bv ∈ exprs, bv.incl = false → ¬ Met bv := by
  unfold Roaring.Accepts
  apply and_congr
  · constructor
    · intro accepts included
      obtain ⟨bv, mem, incl⟩ := included
      rcases accepts with none | ⟨found, listed, isIncl, met⟩
      · rw [none bv mem] at incl
        cases incl
      · exact ⟨found, listed, isIncl, (shares found listed).mp met⟩
    · intro met
      by_cases included : ∃ bv ∈ exprs, bv.incl = true
      · obtain ⟨bv, mem, incl, met⟩ := met included
        exact Or.inr ⟨bv, mem, incl, (shares bv mem).mpr met⟩
      · refine Or.inl fun bv mem => ?_
        rw [← Bool.not_eq_true]
        exact fun incl => included ⟨bv, mem, incl⟩
  · apply forall₂_congr
    intro bv mem
    rw [shares bv mem]

/-- Both engines ask the same of a conjunction. -/
theorem satisfied_iff_heldBy {r : Roaring.IvtBEIndexerBuilder}
    (parsers : ∀ f parser, r.parser f = some parser → parser = newCommonParser.generator)
    (known : ∀ f, conj.exprs f ≠ [] → ∃ parser, r.parser f = some parser)
    (encodes : ∀ f, (r.parser f).isSome = true → ∀ bv ∈ conj.exprs f, ∃ ids,
      newCommonParser.parseValue bv.value = .ok ids)
    (alike : conj.PrintsAlike) (apart : conj.ApartFrom q)
    (asked : ∀ f, Roaring.queryIDs newCommonParser.generator (Roaring.assigned q f) =
      .ok ((q.tokens f).map fnvHashString)) :
    r.Satisfied q conj ↔ conj.HeldBy (fun _ => HolderNameDefault) q := by
  have shares : ∀ f, (r.parser f).isSome = true → ∀ bv ∈ conj.exprs f,
      (Roaring.Shares newCommonParser.generator ((q.tokens f).map fnvHashString) bv ↔
        ∃ v, q.lookup f = some v ∧ bv.MetIn HolderNameDefault v) := by
    intro f configured bv mem
    obtain ⟨ids, parsed⟩ := encodes f configured bv mem
    obtain ⟨exprs, listed, inside⟩ := Conjunction.mem_exprs.mp mem
    rw [metIn_default, shares_iff (alike _ listed bv inside) (apart _ listed bv inside) parsed]
  unfold Conjunction.HeldBy
  rw [Conjunction.holds_iff]
  constructor
  · intro satisfied f
    by_cases none : conj.exprs f = []
    · simp [none]
    · obtain ⟨parser, configured⟩ := known f none
      obtain rfl := parsers f parser configured
      exact (accepts_iff_met (shares f (by rw [configured]; rfl))).mp (satisfied f _ configured _ (asked f))
  · intro held f parser configured ids run
    obtain rfl := parsers f parser configured
    obtain rfl := Except.ok.inj ((asked f).symm.trans run)
    exact (accepts_iff_met (shares f (by rw [configured]; rfl))).mpr (held f)

theorem prepares_default {bv : BoolValues} {slots : List Roaring.AnySlot} (alike : bv.value.PrintsAlike)
    (encoded : (Roaring.ContainerKind.default newCommonParser.generator).slots bv = .ok slots) (f : BEField) :
    ∃ data, prepareExpr HolderNameDefault f bv = .ok data := by
  obtain ⟨_, checked, rest⟩ := bind_eq_ok.mp encoded
  have isEq : bv.operator = .eq := by simpa using panicIf_eq_ok.mp checked
  obtain ⟨ids, parsed, _⟩ := bind_eq_ok.mp rest
  obtain ⟨tokens, run, _⟩ := parseValue_tokens alike parsed
  refine ⟨.strTokens tokens, ?_⟩
  simp [prepareExpr, newEntriesHolder, EntriesHolder.buildFieldIndexingData,
    DefaultEntriesHolder.buildFieldIndexingData,
    run, isEq, panicIf, bind, Except.bind, wrapErr, Except.map, pure, Except.pure]

end Conjunctions

/-! ### Indexes -/

section Indexes

open Roaring Roaring.IvtScanner

variable [FloatOps] [GeoOps] [Codec] [AhoMachine] {option : BuilderOption} {docs : List Document}
  {b b' : IndexerBuilder}
  {r r' : IvtBEIndexerBuilder} {indexer : IvtBEIndexer} {s : IvtScanner} {q : Assignments} {us vs : List Unit}

omit [Codec] in
theorem configureFields_indexed {panics : Bool} {fields : List BEField} (some : fields ≠ [])
    (configured :
      ((IvtBEIndexerBuilder.newIndexerBuilder newCommonParser.generator).withErrPanic panics).configureFields
        (fields.map fun f => (f, none)) = .ok (r, .ok us))
    {given : List ((Nat → KeyOrder) × Document)} (added : r.addDocuments given = .ok (r', .ok vs))
    (distinct : ((given.map Prod.snd).map Document.id).Nodup) (indexed : r'.buildIndexer = .ok indexer) :
    Indexed r (given.map Prod.snd) r' indexer ∧ ∀ f parser, r.parser f = .some parser →
      parser = newCommonParser.generator := by
  have start : ((IvtBEIndexerBuilder.newIndexerBuilder newCommonParser.generator).withErrPanic panics).Blank := by
    intro field c found
    cases found
  obtain ⟨blank, any⟩ := IvtBEIndexerBuilder.configureFields_blank start configured
  refine ⟨⟨blank, any (Or.inl ?_), IvtBEIndexerBuilder.addDocuments_loaded added, distinct, indexed⟩, ?_⟩
  · simpa using some
  · intro f parser known
    rcases IvtBEIndexerBuilder.configureFields_parsedBy configured known with absurd | ⟨setting, mem, _, chosen⟩
    · cases absurd
    · obtain ⟨_, _, rfl⟩ := List.mem_map.mp mem
      exact chosen.symm

omit [Codec] [AhoMachine] in
/-- Both engines ask the same of the conjunctions of documents that the roaring index accepted. -/
theorem loaded_satisfied {given : List ((Nat → KeyOrder) × Document)} (blank : r.Blank)
    (parsers : ∀ f parser, r.parser f = some parser → parser = newCommonParser.generator)
    (added : r.addDocuments given = .ok (r', .ok vs)) {doc : Document} (hdoc : doc ∈ given.map Prod.snd)
    {conj : Conjunction} (mem : conj ∈ doc.cons) (alike : conj.PrintsAlike) (apart : conj.ApartFrom q)
    (asked : ∀ f, queryIDs newCommonParser.generator (assigned q f) = .ok ((q.tokens f).map fnvHashString)) :
    (r.Satisfied q conj ↔ conj.HeldBy (fun _ => HolderNameDefault) q) ∧ conj.Prepares fun _ => HolderNameDefault := by
  have known : ∀ f, conj.exprs f ≠ [] → r.parser f = some newCommonParser.generator := by
    intro f some
    obtain ⟨kind, found⟩ := Option.isSome_iff_exists.mp (IvtBEIndexerBuilder.addDocuments_known added hdoc mem some)
    obtain ⟨parser, rfl⟩ := blank.kinds found
    have here := IvtBEIndexerBuilder.parser_eq_some.mpr found
    rw [here, parsers f parser here]
  have encoded : ∀ f, ∀ bv ∈ conj.exprs f, ∃ slots,
    (ContainerKind.default newCommonParser.generator).slots bv = .ok slots := by
    intro f bv listed
    have here := IvtBEIndexerBuilder.parser_eq_some.mp (known f (List.ne_nil_of_mem listed))
    have succeed := (IvtBEIndexerBuilder.addDocuments_loaded added).encodes doc hdoc conj mem f _ here
    exact succeed _ (List.mem_append_left _ (List.mem_map_of_mem listed))
  constructor
  · refine satisfied_iff_heldBy parsers (fun f some => ⟨_, known f some⟩) (fun f _ bv listed => ?_) alike apart asked
    obtain ⟨slots, made⟩ := encoded f bv listed
    obtain ⟨ids, parsed, _⟩ := ContainerKind.slots_default made
    exact ⟨ids, parsed⟩
  · intro expr listed
    have mem := mem_exprList.mp listed
    obtain ⟨slots, made⟩ := encoded expr.1 expr.2 mem
    obtain ⟨exprs, found, inside⟩ := Conjunction.mem_exprs.mp mem
    exact prepares_default (alike _ found _ inside) made expr.1

/-- The same documents in both engines: a query gets the same documents from both, in the same order. -/
theorem Accepted.engines_agree (uncached : option.docLevelCache = none) (accepted : Accepted option chosenNames docs b)
    (default : ∀ f, b.containers f = HolderNameDefault) (distinct : (docs.map Document.id).Nodup)
    (built : b.buildIndex = .ok b') {panics : Bool} {fields : List BEField} (some : fields ≠ [])
    (configured :
      ((IvtBEIndexerBuilder.newIndexerBuilder newCommonParser.generator).withErrPanic panics).configureFields
        (fields.map fun f => (f, none)) = .ok (r, .ok us))
    {given : List ((Nat → KeyOrder) × Document)} (same : (given.map Prod.snd).Perm docs)
    (added : r.addDocuments given = .ok (r', .ok vs)) (indexed : r'.buildIndexer = .ok indexer)
    (reads : ∀ a ∈ q.entries, ∃ tokens, tokenizeAssign a.2 = .ok tokens) (asksAlike : ∀ a ∈ q.entries, a.2.PrintsAlike)
    (alike : ∀ doc ∈ docs, ∀ conj ∈ doc.cons, conj.PrintsAlike)
    (apart : ∀ doc ∈ docs, ∀ conj ∈ doc.cons, conj.ApartFrom q)
    (visits : Nat → GoMap.Visit q) (fresh : Fresh indexer s) (visit : s.indexer.data.Visit) :
    ∃ ids s', b'.indexer.retrieve q visits = .ok ids ∧ s.retrieve q visit = .ok (s', .ok (ids.map Int64.toUInt64)) := by
  have containers : b.containers = fun _ => HolderNameDefault := funext default
  have readIn : ∀ a ∈ q.entries, a.2.ReadIn (b.containers a.1) := by
    intro a mem
    rw [default, Value.ReadIn, if_neg (by decide)]
    exact reads a mem
  have bounded : ∀ doc ∈ docs, doc.Bounded b.containers := by
    intro doc _ conj _ expr _ isRange
    rw [default] at isRange
    exact absurd isRange (by decide)
  obtain ⟨ids, run, ascending, means⟩ := Accepted.retrieve_heldBy uncached accepted distinct bounded built readIn visits
  rw [containers] at means
  obtain ⟨h, parsers⟩ :=
    configureFields_indexed some configured added ((same.map Document.id).nodup_iff.mpr distinct) indexed
  have asked := queryIDs_assigned reads asksAlike
  have fine : Indexed.Answers r q := by
    constructor
    · intro f parser known
      obtain rfl := parsers f parser known
      exact ⟨_, asked f⟩
    · intro f _
      unfold assigned
      cases found : q.lookup f with
      | none => rfl
      | some v =>
        obtain ⟨tokens, tokenized⟩ := reads _ (AList.mem_lookup_iff.mp found)
        exact Accepted.tokenized_plain tokenized
  obtain rfl := fresh.eq_new
  obtain ⟨s', found, ran, _, nodup, members⟩ := exact_of_answers h fine visit
  refine ⟨ids, s', run, ran.trans ?_⟩
  have sorted : found.Pairwise (· ≤ ·) := by
    rw [(retrieve_eq_ok.mp ran).2]
    exact Finset.pairwise_sort _ _
  have agree : ∀ x, x ∈ found ↔ x ∈ ids.map Int64.toUInt64 := by
    intro x
    rw [members, List.mem_map]
    constructor
    · intro listed
      obtain ⟨doc, mem, rfl, conj, inside, satisfied⟩ := listed
      have hdoc := same.mem_iff.mp mem
      obtain ⟨asks, prepares⟩ := loaded_satisfied h.blank parsers added mem inside (alike doc hdoc conj inside)
        (apart doc hdoc conj inside) asked
      exact ⟨doc.id, (means doc.id).mpr ⟨doc, hdoc, rfl, conj, inside, prepares, asks.mp satisfied⟩, rfl⟩
    · intro listed
      obtain ⟨id, mem, rfl⟩ := listed
      obtain ⟨doc, hdoc, rfl, conj, inside, _, held⟩ := (means id).mp mem
      have mem := same.mem_iff.mpr hdoc
      obtain ⟨asks, _⟩ := loaded_satisfied h.blank parsers added mem inside (alike doc hdoc conj inside)
        (apart doc hdoc conj inside) asked
      exact ⟨doc, mem, rfl, conj, inside, asks.mpr held⟩
  have equal : found = ids.map Int64.toUInt64 := by
    have perm := (List.perm_ext_iff_of_nodup nodup (ascending.imp ne_of_lt)).mpr agree
    exact perm.eq_of_pairwise' sorted (ascending.imp le_of_lt)
  rw [equal]

omit [FloatOps] [GeoOps] [Codec] [AhoMachine] in
/-- A list of ages and an excluded city, added to the engines in different orders. -/
theorem Accepted.engines_agree_ages :
    letI := FloatOps.noFloats
    letI := GeoOps.nowhere
    letI := Codec.single [] [] ⟨.eq, false, []⟩ []
    letI := AhoMachine.naive
    let young : Document :=
      ⟨7, 0, [⟨(AList.singleton (str "age") [⟨true, .ints .int (some [3, 4]), .eq⟩]).insert (str "city")
      [⟨false, .scalar (.string (str "sh")), .eq⟩]⟩]⟩
    let any : Document := ⟨9, 0, [⟨AList.singleton (str "city") [⟨true, .strings (some [str "sh", str "bj"]), .eq⟩]⟩]⟩
    let q : Assignments :=
      (AList.singleton (str "age") (.scalar (.int .int 4))).insert (str "city") (.scalar (.string (str "gz")))
    ∃ b b' r r' us vs indexer, Accepted ⟨.compact, .error, none⟩ chosenNames [young, any] b ∧ b.buildIndex = .ok b' ∧
      ((IvtBEIndexerBuilder.newIndexerBuilder newCommonParser.generator).withErrPanic false).configureFields
        ([str "age", str "city"].map fun f => (f, none)) = .ok (r, .ok us) ∧
      r.addDocuments [(fun _ => .id, any), (fun _ => .id, young)] = .ok (r', .ok vs) ∧ r'.buildIndexer = .ok indexer ∧
      b'.indexer.retrieve q (fun _ => ⟨q.entries, .refl _⟩) = .ok [7] ∧
      ∃ s', (newScanner indexer).retrieve q ⟨indexer.data.entries, .refl _⟩ = .ok (s', .ok [7]) := by
  let _ := FloatOps.noFloats
  let _ := GeoOps.nowhere
  let _ := Codec.single [] [] ⟨.eq, false, []⟩ []
  let _ := AhoMachine.naive
  intro young any q
  have apart : ∀ doc ∈ [young, any], ∀ conj ∈ doc.cons, conj.ApartFrom q := by decide
  have alike : ∀ doc ∈ [young, any], ∀ conj ∈ doc.cons, conj.PrintsAlike := by decide
  obtain ⟨x, made, run⟩ := okAnd_iff.mp (show okAnd (fun b => finished (fun b _ => okAnd (fun b' =>
      okAnd (fun ids => ids == [7]) (b'.indexer.retrieve q fun _ => ⟨q.entries, .refl _⟩)) b.buildIndex)
    (b.addDocument .id [young, any])) (newIndexerBuilder ⟨.compact, .error, none⟩) = true by decide +kernel)
  obtain ⟨b, _, added, run⟩ := finished_iff.mp run
  obtain ⟨b', built, run⟩ := okAnd_iff.mp run
  obtain ⟨found, ran, same⟩ := okAnd_iff.mp run
  obtain rfl := beq_iff_eq.mp same
  have accepted : Accepted ⟨.compact, .error, none⟩ chosenNames [young, any] b := .added (.new made) added
  have default : ∀ f, b.containers f = HolderNameDefault := by
    have plain : Accepted ⟨.compact, .error, none⟩ Accepted.defaultNames [young, any] b := .added (.new made) added
    have shows := (Accepted.loaded rfl plain).1
    exact fun f => congrFun shows.1.containers f
  obtain ⟨r, us, configured, r', vs, given, index⟩ : ∃ r us, ((IvtBEIndexerBuilder.newIndexerBuilder
        newCommonParser.generator).withErrPanic false).configureFields
          ([str "age", str "city"].map fun f => (f, none)) =
          .ok (r, .ok us) ∧
      ∃ r' vs, r.addDocuments [(fun _ => .id, any), (fun _ => .id, young)] = .ok (r', .ok vs) ∧
        okAnd (fun _ => true) r'.buildIndexer = true :=
    ⟨_, _, rfl, finished_iff.mp (by decide +kernel)⟩
  obtain ⟨indexer, index, _⟩ := okAnd_iff.mp index
  have reads : ∀ a ∈ q.entries, ∃ tokens, tokenizeAssign a.2 = .ok tokens := by
    intro a mem
    rcases List.mem_pair.mp mem with rfl | rfl
    · exact ⟨_, rfl⟩
    · exact ⟨_, rfl⟩
  have same : ([((fun _ => .id : Nat → KeyOrder), any), (fun _ => .id, young)].map Prod.snd).Perm [young, any] :=
    .swap ..
  obtain ⟨ids, s', agrees, scanned⟩ :=
    engines_agree rfl accepted default (by decide) built (by simp) configured same given index
    reads (by decide) alike apart (fun _ => ⟨q.entries, .refl _⟩) (Or.inl rfl) ⟨indexer.data.entries, .refl _⟩
  obtain rfl := Except.ok.inj (ran.symm.trans agrees)
  exact ⟨b, b', r, r', us, vs, indexer, accepted, built, configured, given, index, ran, s', scanned⟩

end Indexes

end BeIndexer
