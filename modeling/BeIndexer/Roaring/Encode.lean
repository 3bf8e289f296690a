import BeIndexer.Roaring.Index

/-!
# What a document writes

Encoding a document is a sequence of steps, each of which adds a conjunction id to some bitmaps or
fails. The steps depend on the document and on how the fields are configured, not on the bitmaps, and
nothing undoes the steps before the one that fails.
-/

namespace BeIndexer.Roaring

open Calls

/-! ### Bitmaps -/

/-- The bitmaps of a container. -/
inductive Slot (κ : Type) where
  | wildcard
  | inc (value : κ)
  | exc (value : κ)
  deriving DecidableEq

/-- The bitmap that a value of an expression goes to. -/
def Slot.of {κ : Type} (incl : Bool) (value : κ) : Slot κ := if incl then .inc value else .exc value

theorem Slot.of_inj {κ : Type} {incl incl' : Bool} {value value' : κ} :
    Slot.of incl value = Slot.of incl' value' ↔ incl = incl' ∧ value = value' := by
  cases incl <;> cases incl' <;> simp [Slot.of]

theorem Slot.of_ne_wildcard {κ : Type} (incl : Bool) (value : κ) : Slot.of incl value ≠ .wildcard := by
  cases incl <;> simp [Slot.of]

namespace Postings

variable {κ : Type} [DecidableEq κ]

/-- A bitmap that has not been created is empty. -/
def bitmap (p : Postings κ) : Slot κ → PostingList
  | .wildcard => p.wc
  | .inc value => (p.inc.lookup value).getD ∅
  | .exc value => (p.exc.lookup value).getD ∅

theorem mem_addTo {m : GoMap κ PostingList} {key value : κ} {id x : ConjunctionID} :
    x ∈ ((addTo m key id).lookup value).getD ∅ ↔ x ∈ (m.lookup value).getD ∅ ∨ (x = id ∧ value = key) := by
  by_cases same : value = key
  · subst same
    rw [addTo, AList.lookup_insert, Option.getD_some, Finset.mem_insert, or_comm]
    simp
  · rw [addTo, AList.lookup_insert_ne same]
    simp [same]

theorem mem_addWildcard {p : Postings κ} {id x : ConjunctionID} {slot : Slot κ} :
    x ∈ (p.addWildcard id).bitmap slot ↔ x ∈ p.bitmap slot ∨ (x = id ∧ slot = .wildcard) := by
  cases slot with
  | wildcard => simp [addWildcard, Postings.bitmap, or_comm]
  | inc value => simp [addWildcard, Postings.bitmap]
  | exc value => simp [addWildcard, Postings.bitmap]

theorem mem_addInclude {p : Postings κ} {key : κ} {id x : ConjunctionID} {slot : Slot κ} :
    x ∈ (p.addInclude key id).bitmap slot ↔ x ∈ p.bitmap slot ∨ (x = id ∧ slot = .inc key) := by
  cases slot with
  | wildcard => simp [addInclude, Postings.bitmap]
  | inc value => simp only [addInclude, Postings.bitmap, mem_addTo, Slot.inc.injEq]
  | exc value => simp [addInclude, Postings.bitmap]

theorem mem_addExclude {p : Postings κ} {key : κ} {id x : ConjunctionID} {slot : Slot κ} :
    x ∈ (p.addExclude key id).bitmap slot ↔ x ∈ p.bitmap slot ∨ (x = id ∧ slot = .exc key) := by
  cases slot with
  | wildcard => simp [addExclude, Postings.bitmap]
  | inc value => simp [addExclude, Postings.bitmap]
  | exc value => simp only [addExclude, Postings.bitmap, mem_addTo, Slot.exc.injEq]

theorem mem_addValues {p : Postings κ} {incl : Bool} {values : List κ} {id x : ConjunctionID} {slot : Slot κ} :
    x ∈ (p.addValues incl values id).bitmap slot ↔ x ∈ p.bitmap slot ∨ (x = id ∧ slot ∈ values.map (Slot.of incl)) := by
  induction values generalizing p with
  | nil => simp [addValues]
  | cons value values ih =>
    have one : x ∈ (if incl then p.addInclude value id else p.addExclude value id).bitmap slot ↔
        x ∈ p.bitmap slot ∨ (x = id ∧ slot = Slot.of incl value) := by
      cases incl
      · exact mem_addExclude
      · exact mem_addInclude
    have step : p.addValues incl (value :: values) id =
        (if incl then p.addInclude value id else p.addExclude value id).addValues incl values id := rfl
    rw [step, ih, one, List.map_cons, List.mem_cons]
    tauto

end Postings

/-! ### Expressions -/

/-- A bitmap of either kind of container. -/
inductive AnySlot where
  | number (slot : Slot UInt64)
  | word (slot : Slot GoString)

/-- A container without its bitmaps. -/
inductive ContainerKind where
  | default (parser : ValueIDGenerator)
  | ac

namespace ContainerKind

def slots : ContainerKind → BoolValues → Go (List AnySlot)
  | .default parser, expr => do
    panicIf (expr.operator != .eq) "default container support EQ operator only" []
    return (← parser.parseValue expr.value).map fun value => .number (.of expr.incl value)
  | .ac, expr => do
    if ← nilInterface expr.value then return []
    panicIf (expr.operator != .eq) "ac_match support EQ operator only" []
    let keys ← wrapErr "ac container need string type values, err:%v" [] (parseAcMatchDict expr.value)
    return keys.map fun key => .word (.of expr.incl key)

def wildcard : ContainerKind → AnySlot
  | .default _ => .number .wildcard
  | .ac => .word .wildcard

/-- The steps of one field of a conjunction: its expressions, and the wildcard if none includes. -/
def steps (kind : ContainerKind) (exprs : List BoolValues) : List (Go (List AnySlot)) :=
  exprs.map kind.slots ++ [.ok (if exprs.all (fun expr => !expr.incl) then [kind.wildcard] else [])]

end ContainerKind

namespace BEContainerBuilder

def bitmap : BEContainerBuilder → AnySlot → PostingList
  | .default c, .number slot => c.postings.bitmap slot
  | .ac c, .word slot => c.postings.bitmap slot
  | _, _ => ∅

def kind : BEContainerBuilder → ContainerKind
  | .default c => .default c.parser
  | .ac _ => .ac

/-- The second container is the first with an id added to some bitmaps. -/
structure Gains (c : BEContainerBuilder) (id : ConjunctionID) (slots : List AnySlot) (c' : BEContainerBuilder) :
    Prop where
  kind : c'.kind = c.kind
  mem : ∀ slot x, x ∈ c'.bitmap slot ↔ x ∈ c.bitmap slot ∨ (x = id ∧ slot ∈ slots)

variable {c c' : BEContainerBuilder} {id : ConjunctionID}

theorem Gains.nil (c : BEContainerBuilder) (id : ConjunctionID) : c.Gains id [] c := ⟨rfl, by simp⟩

theorem Gains.append {c'' : BEContainerBuilder} {slots slots' : List AnySlot} (first : c.Gains id slots c')
    (second : c'.Gains id slots' c'') : c.Gains id (slots ++ slots') c'' := by
  refine ⟨second.kind.trans first.kind, fun slot x => ?_⟩
  rw [second.mem, first.mem, List.mem_append]
  tauto

theorem encodeWildcard_gains (c : BEContainerBuilder) (id : ConjunctionID) :
    c.Gains id [c.kind.wildcard] (c.encodeWildcard id) := by
  cases c with
  | default c =>
    refine ⟨rfl, fun slot x => ?_⟩
    cases slot with
    | number slot =>
      simp only [encodeWildcard, BEContainerBuilder.bitmap, BEContainerBuilder.kind, ContainerKind.wildcard,
        Postings.mem_addWildcard, List.mem_singleton, AnySlot.number.injEq]
    | word slot => simp [encodeWildcard, BEContainerBuilder.bitmap, BEContainerBuilder.kind, ContainerKind.wildcard]
  | ac c =>
    refine ⟨rfl, fun slot x => ?_⟩
    cases slot with
    | number slot => simp [encodeWildcard, BEContainerBuilder.bitmap, BEContainerBuilder.kind, ContainerKind.wildcard]
    | word slot =>
      simp only [encodeWildcard, BEContainerBuilder.bitmap, BEContainerBuilder.kind, ContainerKind.wildcard,
        Postings.mem_addWildcard, List.mem_singleton, AnySlot.word.injEq]

theorem default_gains (c : DefaultBEContainer) (incl : Bool) (values : List UInt64) (id : ConjunctionID) :
    (BEContainerBuilder.default c).Gains id (values.map fun value => .number (.of incl value))
      (.default { c with postings := c.postings.addValues incl values id }) := by
  refine ⟨rfl, fun slot x => ?_⟩
  cases slot with
  | number slot => simp [BEContainerBuilder.bitmap, Postings.mem_addValues]
  | word slot => simp [BEContainerBuilder.bitmap]

theorem ac_gains (c : ACBEContainer) (incl : Bool) (keys : List GoString) (id : ConjunctionID) :
    (BEContainerBuilder.ac c).Gains id (keys.map fun key => .word (.of incl key))
      (.ac { c with postings := c.postings.addValues incl keys id }) := by
  refine ⟨rfl, fun slot x => ?_⟩
  cases slot with
  | number slot => simp [BEContainerBuilder.bitmap]
  | word slot => simp [BEContainerBuilder.bitmap, Postings.mem_addValues]

theorem encodeExpr_slots (c : BEContainerBuilder) (id : ConjunctionID) (expr : BoolValues) :
    match c.kind.slots expr with
    | .ok slots => ∃ c', c.encodeExpr id expr = .ok c' ∧ c.Gains id slots c'
    | .error fault => c.encodeExpr id expr = .error fault := by
  cases c with
  | default c =>
    simp only [kind, ContainerKind.slots, encodeExpr, DefaultBEContainer.encodeExpr]
    cases panicIf (expr.operator != .eq) "default container support EQ operator only" [] with
    | error fault => rfl
    | ok u =>
      cases c.parser.parseValue expr.value with
      | error fault => rfl
      | ok values => exact ⟨_, rfl, default_gains c expr.incl values id⟩
  | ac c =>
    simp only [kind, ContainerKind.slots, encodeExpr, ACBEContainer.encodeExpr]
    cases nilInterface expr.value with
    | error fault => rfl
    | ok isNil =>
      cases isNil with
      | true => exact ⟨_, rfl, Gains.nil _ id⟩
      | false =>
        cases panicIf (expr.operator != .eq) "ac_match support EQ operator only" [] with
        | error fault => rfl
        | ok u =>
          cases wrapErr "ac container need string type values, err:%v" [] (parseAcMatchDict expr.value) with
          | error fault => rfl
          | ok keys => exact ⟨_, rfl, ac_gains c expr.incl keys id⟩

end BEContainerBuilder

/-! ### Fields -/

structure Write where
  field : BEField
  slot : AnySlot
  id : ConjunctionID

namespace IvtBEIndexerBuilder

variable {id : ConjunctionID} {c : BEContainerBuilder}

theorem failure_eq_ok {σ α : Type} {panics : Bool} {s s' : σ} {text e : GoError} {r : Except GoError α}
    (run : failure panics s text e = .ok (s', r)) :
    s' = s ∧ r = .error e := by
  unfold failure at run
  split at run
  · cases run
  · obtain ⟨rfl, rfl⟩ := Prod.mk.inj (Except.ok.inj run)
    exact ⟨rfl, rfl⟩

theorem encodeExprs_performs (panicOnError : Bool) (exprs : List BoolValues) :
    Performs (fun c slots c' => c.Gains id slots c') c (exprs.map c.kind.slots)
      (encodeExprs panicOnError id c exprs) := by
  have start : exprs.map c.kind.slots = exprs.flatMap fun expr => [c.kind.slots expr] := by
    rw [← List.flatMap_pure_eq_map]; rfl
  rw [start]
  refine Performs.mapCalls (fun c => .nil c id) (fun _ _ _ _ _ => .append) fun expr _ c' slots gains => ?_
  intro c'' r run
  have encoded := c'.encodeExpr_slots id expr
  rw [gains.kind] at encoded
  cases slots : c.kind.slots expr with
  | ok slots' =>
    simp only [slots] at encoded
    obtain ⟨c₁, ok, gains'⟩ := encoded
    simp only [ok] at run
    obtain ⟨rfl, rfl⟩ := Prod.mk.inj (Except.ok.inj run)
    refine ⟨by simpa [upTo] using gains', fun _ => ?_, fun _ => ⟨(), rfl⟩⟩
    simp [Succeed]
  | error fault =>
    simp only [slots] at encoded
    rw [encoded] at run
    cases fault with
    | err e =>
      obtain ⟨rfl, rfl⟩ := failure_eq_ok run
      refine ⟨.nil c'' id, (by rintro ⟨_, ⟨⟩⟩), fun succeed => ?_⟩
      obtain ⟨_, absurd⟩ := succeed _ List.mem_cons_self
      cases absurd
    | panic e => cases run
    | hang => cases run

theorem encodeField_performs (panicOnError : Bool) (exprs : List BoolValues) :
    Performs (fun c slots c' => c.Gains id slots c') c (c.kind.steps exprs) (encodeField panicOnError id c exprs) := by
  refine Performs.andThen (fun _ _ _ _ _ => .append) (encodeExprs_performs panicOnError exprs) fun c' _ gains => ?_
  intro c'' r run
  obtain ⟨rfl, rfl⟩ := Prod.mk.inj (Except.ok.inj run)
  refine ⟨?_, fun _ => by simp [Succeed], fun _ => ⟨(), rfl⟩⟩
  rw [← gains.kind]
  split
  · simpa [upTo] using c'.encodeWildcard_gains id
  · exact .nil c' id

end IvtBEIndexerBuilder

/-! ### Documents -/

namespace IvtBEIndexerBuilder

variable {b b' : IvtBEIndexerBuilder}

/-- The bitmap of a field; a field that is not configured has none. -/
def bitmap (b : IvtBEIndexerBuilder) (field : BEField) (slot : AnySlot) : PostingList :=
  match b.containerBuilder.lookup field with
  | some c => c.bitmap slot
  | none => ∅

def kinds (b : IvtBEIndexerBuilder) (field : BEField) : Option ContainerKind :=
  (b.containerBuilder.lookup field).map BEContainerBuilder.kind

/-- The second builder is the first with some ids added to bitmaps. -/
structure Wrote (b : IvtBEIndexerBuilder) (writes : List Write) (b' : IvtBEIndexerBuilder) : Prop where
  docMaxConjSize : b'.docMaxConjSize = b.docMaxConjSize
  panicOnError : b'.panicOnError = b.panicOnError
  kinds : b'.kinds = b.kinds
  mem : ∀ field slot x, x ∈ b'.bitmap field slot ↔ x ∈ b.bitmap field slot ∨ ⟨field, slot, x⟩ ∈ writes

theorem Wrote.nil (b : IvtBEIndexerBuilder) : b.Wrote [] b := ⟨rfl, rfl, rfl, by simp⟩

theorem Wrote.append {b'' : IvtBEIndexerBuilder} {ws ws' : List Write} (first : b.Wrote ws b')
    (second : b'.Wrote ws' b'') : b.Wrote (ws ++ ws') b'' := by
  refine ⟨second.docMaxConjSize.trans first.docMaxConjSize, second.panicOnError.trans first.panicOnError,
    second.kinds.trans first.kinds, fun field slot x => ?_⟩
  rw [second.mem, first.mem, List.mem_append]
  exact or_assoc

/-- The steps of one field, of which a field that is not configured has none. -/
def fieldSteps (kinds : BEField → Option ContainerKind) (id : ConjunctionID) (conj : Conjunction) (field : BEField) :
    List (Go (List Write)) :=
  match kinds field with
  | none => []
  | some kind => (kind.steps (conj.exprs field)).map fun step => step.map fun slots =>
      slots.map fun slot => ⟨field, slot, id⟩

def conjSteps (kinds : BEField → Option ContainerKind) (order : Nat → List BEField) (docID : DocID)
    (conj : Conjunction × Nat) : List (Go (List Write)) :=
  match newConjunctionID conj.2 docID with
  | .error fault => [.error fault]
  | .ok id =>
    match (conj.1.expressions.entries.map Sigma.fst).find? fun field => !(kinds field).isSome with
    | some field => [errorf "document contains none-configured field:%s" [.str field]]
    | none => (order conj.2).flatMap (fieldSteps kinds id conj.1)

def docSteps (orders : Nat → KeyOrder) (b : IvtBEIndexerBuilder) (doc : Document) : List (Go (List Write)) :=
  doc.cons.zipIdx.flatMap (conjSteps b.kinds (fun i => (orders i).visit b.containerBuilder.keys) doc.id)

theorem upTo_map {ω χ : Type} (f : ω → χ) (steps : List (Go (List ω))) :
    upTo (steps.map fun step => step.map fun ws => ws.map f) = (upTo steps).map f := by
  induction steps with
  | nil => rfl
  | cons step steps ih =>
    cases step with
    | error fault => rfl
    | ok ws =>
      rw [List.map_cons, show (Except.ok ws : Go (List ω)).map (fun ws => ws.map f) = .ok (ws.map f) from rfl, upTo,
        upTo, ih, List.map_append]

theorem succeed_map {ω χ : Type} (f : ω → χ) {steps : List (Go (List ω))} :
    Succeed (steps.map fun step => step.map fun ws => ws.map f) ↔ Succeed steps := by
  simp only [Succeed, List.forall_mem_map]
  refine forall₂_congr fun step _ => ?_
  cases step with
  | error fault => simp [Except.map]
  | ok ws => simp [Except.map]

theorem wrote_of_gains {field : BEField} {id : ConjunctionID} {c c' : BEContainerBuilder} {slots : List AnySlot}
    (found : b.containerBuilder.lookup field = some c) (gains : c.Gains id slots c') :
    b.Wrote (slots.map fun slot => ⟨field, slot, id⟩)
      { b with containerBuilder := b.containerBuilder.insert field c' } := by
  refine ⟨rfl, rfl, funext fun f => ?_, fun f slot x => ?_⟩
  · by_cases same : f = field
    · subst same
      simp [kinds, AList.lookup_insert, found, gains.kind]
    · simp [kinds, AList.lookup_insert_ne same]
  · by_cases same : f = field
    · subst same
      simp only [IvtBEIndexerBuilder.bitmap, AList.lookup_insert, found, gains.mem, List.mem_map,
        Write.mk.injEq, true_and]
      refine or_congr_right ⟨?_, ?_⟩
      · rintro ⟨rfl, mem⟩
        exact ⟨slot, mem, rfl, rfl⟩
      · rintro ⟨_, mem, rfl, rfl⟩
        exact ⟨rfl, mem⟩
    · simp only [IvtBEIndexerBuilder.bitmap, AList.lookup_insert_ne same, List.mem_map, Write.mk.injEq]
      refine ⟨Or.inl, ?_⟩
      rintro (mem | ⟨_, _, rfl, _⟩)
      · exact mem
      · exact absurd rfl same

theorem addField_performs (id : ConjunctionID) (conj : Conjunction) (b : IvtBEIndexerBuilder) (field : BEField) :
    Performs Wrote b (fieldSteps b.kinds id conj field) (addField id conj b field) := by
  cases found : b.containerBuilder.lookup field with
  | none =>
    have nothing : addField id conj b field = .ok (b, .ok ()) := by simp only [addField, found]
    rw [nothing, fieldSteps, kinds, found]
    exact Performs.done Wrote.nil ()
  | some c =>
    intro b' r run
    simp only [addField, found] at run
    obtain ⟨⟨c', r'⟩, encoded, done⟩ := bind_eq_ok.mp run
    obtain ⟨rfl, rfl⟩ := Prod.mk.inj (Except.ok.inj done)
    obtain ⟨gains, returned⟩ := encodeField_performs b.panicOnError (conj.exprs field) c' r' encoded
    rw [fieldSteps, kinds, found]
    simp only [Option.map_some, upTo_map, succeed_map]
    exact ⟨wrote_of_gains found gains, returned⟩

theorem failure_performs {α : Type} (panics : Bool) (text e : GoError) (fault : Fault) :
    Performs Wrote b [.error fault] (failure panics b text e : Go (IvtBEIndexerBuilder × Except GoError α)) := by
  intro b' r run
  obtain ⟨rfl, rfl⟩ := failure_eq_ok run
  refine ⟨Wrote.nil b', (by rintro ⟨_, ⟨⟩⟩), fun succeed => ?_⟩
  obtain ⟨_, absurd⟩ := succeed _ List.mem_cons_self
  cases absurd

theorem unconfigured_eq (b : IvtBEIndexerBuilder) (conj : Conjunction) :
    b.unconfigured conj =
      (conj.expressions.entries.map Sigma.fst).find? fun field => !(b.kinds field).isSome := by
  simp only [unconfigured, kinds, Option.isSome_map]

theorem addConj_performs (order : Nat → List BEField) (docID : DocID) (b : IvtBEIndexerBuilder)
    (conj : Conjunction × Nat) :
    Performs Wrote b (conjSteps b.kinds order docID conj) (addConj order docID b conj) := by
  unfold conjSteps addConj
  rw [unconfigured_eq]
  cases newConjunctionID conj.2 docID with
  | error fault =>
    cases fault with
    | err e => exact failure_performs _ _ e _
    | panic e => rintro b' r ⟨⟩
    | hang => rintro b' r ⟨⟩
  | ok id =>
    cases (conj.1.expressions.entries.map Sigma.fst).find? fun field => !(b.kinds field).isSome with
    | some field =>
      exact failure_performs _ _ _ (.err (.errorf "document contains none-configured field:%s" [.str field]))
    | none =>
      refine Performs.mapCalls Wrote.nil (fun _ _ _ _ _ => .append) fun field _ b' ws wrote => ?_
      have performs := addField_performs id conj.1 b' field
      rwa [wrote.kinds] at performs

theorem addConjs_performs (orders : Nat → KeyOrder) (b : IvtBEIndexerBuilder) (doc : Document) :
    Performs Wrote b (docSteps orders b doc)
      (mapCalls (addConj (fun i => (orders i).visit b.containerBuilder.keys) doc.id) b doc.cons.zipIdx) := by
  refine Performs.mapCalls Wrote.nil (fun _ _ _ _ _ => .append) fun conj _ b' ws wrote => ?_
  have performs := addConj_performs (fun i => (orders i).visit b.containerBuilder.keys) doc.id b' conj
  rwa [wrote.kinds] at performs

theorem addDocument_error {orders : Nat → KeyOrder} {doc : Document} {e : GoError}
    (run : b.addDocument orders doc = .ok (b', .error e)) : b.Wrote (upTo (docSteps orders b doc)) b' := by
  rw [addDocument] at run
  split at run
  next none =>
    obtain ⟨rfl, _⟩ := failure_eq_ok run
    rw [List.isEmpty_iff] at none
    rw [docSteps, none]
    exact Wrote.nil b'
  next =>
    have failed : mapCalls (addConj (fun i => (orders i).visit b.containerBuilder.keys) doc.id) b doc.cons.zipIdx =
        .ok (b', .error e) := by
      revert run
      rcases mapCalls _ b doc.cons.zipIdx with fault | ⟨b₁, e₁ | us⟩
      · rintro ⟨⟩
      · intro run
        obtain ⟨rfl, rfl⟩ : b₁ = b' ∧ e₁ = e := by simpa [andThen] using run
        rfl
      · rintro ⟨⟩
    exact (addConjs_performs orders b doc b' _ failed).1

theorem addDocument_eq_ok {orders : Nat → KeyOrder} {doc : Document}
    (run : b.addDocument orders doc = .ok (b', .ok ())) :
    ∃ b₁ us, mapCalls (addConj (fun i => (orders i).visit b.containerBuilder.keys) doc.id) b doc.cons.zipIdx =
        .ok (b₁, .ok us) ∧ b' = { b₁ with docMaxConjSize := max doc.cons.length b₁.docMaxConjSize } := by
  rw [addDocument] at run
  split at run
  · obtain ⟨_, absurd⟩ := failure_eq_ok run
    cases absurd
  · obtain ⟨b₁, us, ran, done⟩ := andThen_eq_ok.mp run
    obtain ⟨rfl, _⟩ := Prod.mk.inj (Except.ok.inj done)
    exact ⟨b₁, us, ran, rfl⟩

theorem addDocument_ok {orders : Nat → KeyOrder} {doc : Document}
    (run : b.addDocument orders doc = .ok (b', .ok ())) :
    Succeed (docSteps orders b doc) ∧ b'.kinds = b.kinds ∧
      ∀ field slot x, x ∈ b'.bitmap field slot ↔ x ∈ b.bitmap field slot ∨
        ⟨field, slot, x⟩ ∈ upTo (docSteps orders b doc) := by
  obtain ⟨b₁, us, ran, rfl⟩ := addDocument_eq_ok run
  obtain ⟨wrote, returned⟩ := addConjs_performs orders b doc b₁ _ ran
  exact ⟨returned.mp ⟨us, rfl⟩, wrote.kinds, wrote.mem⟩

theorem addDocument_wrote {orders : Nat → KeyOrder} {doc : Document} {r : Except GoError Unit}
    (run : b.addDocument orders doc = .ok (b', r)) :
    b'.kinds = b.kinds ∧ ∀ field slot x, x ∈ b'.bitmap field slot ↔ x ∈ b.bitmap field slot ∨
      ⟨field, slot, x⟩ ∈ upTo (docSteps orders b doc) := by
  cases r with
  | error e => exact ⟨(addDocument_error run).kinds, (addDocument_error run).mem⟩
  | ok u => exact (addDocument_ok run).2

/-- The bitmaps and the counter are those of the other builder. -/
def SameLists (b b' : IvtBEIndexerBuilder) : Prop :=
  b'.docMaxConjSize = b.docMaxConjSize ∧ ∀ field slot, b'.bitmap field slot = b.bitmap field slot

/-- A document that is not accepted leaves the bitmaps as they were exactly if everything encoded before
the step that failed was there already. -/
theorem addDocument_atomic_iff (b b' : IvtBEIndexerBuilder) (orders : Nat → KeyOrder) (doc : Document) (e : GoError)
    (run : b.addDocument orders doc = .ok (b', .error e)) :
    b.SameLists b' ↔ ∀ w ∈ upTo (docSteps orders b doc), w.id ∈ b.bitmap w.field w.slot := by
  have wrote := addDocument_error run
  constructor
  · rintro ⟨_, same⟩ w mem
    rw [← same]
    exact (wrote.mem w.field w.slot w.id).mpr (Or.inr mem)
  · intro known
    refine ⟨wrote.docMaxConjSize, fun field slot => Finset.ext fun x => ?_⟩
    rw [wrote.mem]
    exact or_iff_left_of_imp (known _)

/-- A field that is not configured is noticed before anything is encoded. -/
theorem addDocument_atomic_unconfigured :
    let b := IvtBEIndexerBuilder.newIndexerBuilder StrHashParser.generator
    let doc : Document := ⟨1, 0, [⟨.singleton (str "a") [⟨true, .scalar (.string (str "x")), .eq⟩]⟩]⟩
    ∃ b' e, b.addDocument (fun _ => .id) doc = .ok (b', .error e) ∧ b.SameLists b' := by
  intro b doc
  refine ⟨_, _, rfl, (addDocument_atomic_iff b b (fun _ => .id) doc _ rfl).mpr fun w mem => ?_⟩
  have none : upTo (docSteps (fun _ => .id) b doc) = [] := rfl
  rw [none] at mem
  cases mem

/-- The value on the second field cannot be parsed, and the first conjunction has been encoded by then: a
query returns the document that was refused. -/
theorem addDocument_leaves_conjunction :
    letI := FloatOps.noFloats
    letI := AhoMachine.naive
    let doc : Document := ⟨1, 0, [⟨.singleton (str "a") [⟨true, .scalar (.string (str "x")), .eq⟩]⟩,
      ⟨.singleton (str "b") [⟨true, .scalar (.string (str "abc")), .eq⟩]⟩]⟩
    let q : Assignments := .singleton (str "a") (.scalar (.string (str "x")))
    ∃ b₁ b₂ b₃ e indexer s,
      (IvtBEIndexerBuilder.newIndexerBuilder StrHashParser.generator).configureField (str "a")
        ⟨none, ContainerNameDefault⟩ = .ok (b₁, .ok ()) ∧
      b₁.configureField (str "b") ⟨some (NumberParser.mk true).generator, ContainerNameDefault⟩ = .ok (b₂, .ok ()) ∧
      b₂.addDocument (fun _ => .id) doc = .ok (b₃, .error e) ∧ ¬ b₂.SameLists b₃ ∧
      b₃.buildIndexer = .ok indexer ∧
      (newScanner indexer).retrieve q ⟨indexer.data.entries, .refl _⟩ = .ok (s, .ok [1]) := by
  let _ := FloatOps.noFloats
  let _ := AhoMachine.naive
  intro doc q
  let held (b : IvtBEIndexerBuilder) : Bool := decide (256 ∈ b.bitmap (str "b") (.number .wildcard))
  obtain ⟨b₁, b₂, first, second, absent, b₃, e, refused, shows⟩ : ∃ b₁ b₂,
      (IvtBEIndexerBuilder.newIndexerBuilder StrHashParser.generator).configureField (str "a")
        ⟨none, ContainerNameDefault⟩ = .ok (b₁, .ok ()) ∧
      b₁.configureField (str "b") ⟨some (NumberParser.mk true).generator, ContainerNameDefault⟩ = .ok (b₂, .ok ()) ∧
      held b₂ = false ∧
      ∃ b₃ e, b₂.addDocument (fun _ => .id) doc = .ok (b₃, .error e) ∧ (held b₃ && okAnd (fun indexer =>
        finished (fun _ docs => docs = [1]) ((newScanner indexer).retrieve q ⟨indexer.data.entries, .refl _⟩))
        b₃.buildIndexer) = true :=
    ⟨_, _, rfl, rfl, rfl, failed_iff.mp (by decide +kernel)⟩
  obtain ⟨present, answers⟩ := Bool.and_eq_true_iff.mp shows
  obtain ⟨indexer, built, answers⟩ := okAnd_iff.mp answers
  obtain ⟨s, docs, run, is⟩ := finished_iff.mp answers
  refine ⟨b₁, b₂, b₃, e, indexer, s, first, second, refused, ?_, built, of_decide_eq_true is ▸ run⟩
  intro ⟨_, same⟩
  rw [decide_eq_true_iff, same] at present
  exact of_decide_eq_false absent present

end IvtBEIndexerBuilder

end BeIndexer.Roaring
