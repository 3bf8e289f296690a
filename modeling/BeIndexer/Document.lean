import BeIndexer.IdTypes
import Mathlib.Data.List.AList

/-!
# Documents and queries (`boolean_expr.go`, `document.go`)

A document is a disjunction of conjunctions, a conjunction a map from fields to boolean expressions
that must all hold. Go leaves the order of a loop over a map open, so a map is an association list
with distinct keys, and the position of an entry is the order in which a loop visits it.
-/

namespace BeIndexer

/-- A Go map by its entries, in the order a loop visits them. -/
abbrev GoMap (κ β : Type) := AList (fun _ : κ => β)

/-- Two visits of one map. -/
def GoMap.Same {κ β : Type} (m n : GoMap κ β) : Prop := m.entries.Perm n.entries

theorem GoMap.Same.refl {κ β : Type} (m : GoMap κ β) : GoMap.Same m m := List.Perm.refl _

abbrev BEField := GoString

inductive ValueOpt where
  | eq | gt | lt | between
  | other (n : Int)
  deriving DecidableEq, Repr

structure BoolValues where
  incl : Bool
  value : Value
  operator : ValueOpt
  deriving DecidableEq, Repr

namespace BoolValues

def booleanToken (v : BoolValues) : GoString := if v.incl then str "in" else str "not"

def operatorName (v : BoolValues) : GoString :=
  match v.operator with
  | .gt => str ">"
  | .lt => str "<"
  | .between => str "between"
  | _ => []

/-- `String`: a format and its arguments, like the texts of errors. -/
def string (v : BoolValues) : GoError := .errorf "%s %s%v" [.str v.booleanToken, .str v.operatorName, .val v.value]

end BoolValues

structure Conjunction where
  expressions : GoMap BEField (List BoolValues)

structure Document where
  id : DocID
  version : UInt64
  cons : List Conjunction

abbrev Assignments := GoMap BEField Value

namespace Conjunction

/-- The number of fields with an include expression. -/
def calcConjSize (conj : Conjunction) : Nat :=
  conj.expressions.entries.countP (fun e => e.2.any BoolValues.incl)

/-- The expressions on a field; a field that is not a key has none. -/
def exprs (conj : Conjunction) (f : BEField) : List BoolValues := (conj.expressions.lookup f).getD []

/-- One conjunction, its fields visited in any order. -/
def Same (c d : Conjunction) : Prop := GoMap.Same c.expressions d.expressions

theorem Same.calcConjSize {c d : Conjunction} (same : c.Same d) : c.calcConjSize = d.calcConjSize :=
  List.Perm.countP_eq _ same

theorem Same.exprs {c d : Conjunction} (same : c.Same d) (f : BEField) : c.exprs f = d.exprs f := by
  rw [Conjunction.exprs, Conjunction.exprs, AList.perm_lookup same]

theorem mem_exprs {conj : Conjunction} {f : BEField} {bv : BoolValues} :
    bv ∈ conj.exprs f ↔ ∃ exprs, ⟨f, exprs⟩ ∈ conj.expressions.entries ∧ bv ∈ exprs := by
  rw [exprs]
  cases found : conj.expressions.lookup f with
  | none =>
    simp only [Option.getD_none, List.not_mem_nil, false_iff, not_exists, not_and]
    intro exprs mem
    rw [AList.mem_lookup_iff.mpr mem] at found
    cases found
  | some exprs =>
    have mem := AList.mem_lookup_iff.mp found
    refine ⟨fun h => ⟨exprs, mem, h⟩, ?_⟩
    rintro ⟨exprs', mem', h⟩
    have same := (AList.mem_lookup_iff.mpr mem').symm.trans found
    simpa [Option.some.inj same] using h

/-- The fields with an include expression, in visiting order; `CalcConjSize` counts them. -/
def includeFields (conj : Conjunction) : List BEField :=
  (conj.expressions.entries.filter (fun e => e.2.any BoolValues.incl)).map Sigma.fst

theorem includeFields_length (conj : Conjunction) : conj.includeFields.length = conj.calcConjSize := by
  rw [includeFields, List.length_map, calcConjSize, List.countP_eq_length_filter]

theorem includeFields_nodup (conj : Conjunction) : conj.includeFields.Nodup :=
  (conj.expressions.nodupKeys.sublist List.filter_sublist)

theorem mem_includeFields {conj : Conjunction} {f : BEField} :
    f ∈ conj.includeFields ↔ ∃ bv ∈ conj.exprs f, bv.incl = true := by
  simp only [includeFields, List.mem_map, List.mem_filter, List.any_eq_true]
  constructor
  · rintro ⟨⟨f, exprs⟩, ⟨mem, bv, hbv, incl⟩, rfl⟩
    exact ⟨bv, mem_exprs.mpr ⟨exprs, mem, hbv⟩, incl⟩
  · rintro ⟨bv, hbv, incl⟩
    obtain ⟨exprs, mem, hbv⟩ := mem_exprs.mp hbv
    exact ⟨⟨f, exprs⟩, ⟨mem, bv, hbv, incl⟩, rfl⟩

end Conjunction

/-- One document, the fields of its conjunctions visited in any order. -/
def Document.Same (d e : Document) : Prop :=
  d.id = e.id ∧ d.version = e.version ∧ List.Forall₂ Conjunction.Same d.cons e.cons

theorem Document.Same.refl (d : Document) : d.Same d :=
  ⟨rfl, rfl, List.forall₂_same.mpr fun _ _ => GoMap.Same.refl _⟩

namespace Assignments

/-- `Assignments.Size`: the number of values that are not nil. -/
def size (ass : Assignments) : Go Nat :=
  ass.entries.foldlM (fun size e => do
    if ← nilInterface e.2 then return size
    return size + 1) 0

/-- `Size` panics on an array. -/
theorem size_eq (ass : Assignments) :
    size ass =
      if ass.entries.any fun e => e.2.isArray then panicf "reflect: call of reflect.Value.IsNil on array Value" []
      else .ok (ass.entries.countP fun e => !e.2.isNil) := by
  have loop : ∀ (entries : List (Sigma fun _ : BEField => Value)) (n : Nat),
      entries.foldlM (fun size e => do
        if ← nilInterface e.2 then return size
        return size + 1) n =
      if entries.any fun e => e.2.isArray then panicf "reflect: call of reflect.Value.IsNil on array Value" []
      else (.ok (n + entries.countP fun e => !e.2.isNil) : Go Nat) := by
    intro entries
    induction entries with
    | nil => exact fun n => rfl
    | cons e entries ih =>
      intro n
      rw [List.foldlM_cons, nilInterface_eq, List.any_cons, List.countP_cons]
      cases e.2.isArray with
      | true => rfl
      | false =>
        cases e.2.isNil with
        | true => exact ih n
        | false =>
          refine (ih (n + 1)).trans ?_
          simp only [Bool.false_or, Bool.not_false, if_true, Nat.add_assoc, Nat.add_comm 1]
  simpa [size] using loop ass.entries 0

theorem size_plain {ass : Assignments} (plain : ∀ e ∈ ass.entries, e.2.isArray = false) :
    size ass = .ok (ass.entries.countP fun e => !e.2.isNil) := by
  rw [size_eq, if_neg]
  intro some
  obtain ⟨e, mem, array⟩ := List.any_eq_true.mp some
  rw [plain e mem] at array
  cases array

theorem plain_of_size {ass : Assignments} {n : Nat} (sized : size ass = .ok n) :
    ∀ e ∈ ass.entries, e.2.isArray = false := by
  rw [size_eq] at sized
  split at sized
  · cases sized
  · rename_i none
    intro e mem
    rw [← Bool.not_eq_true]
    exact fun array => none (List.any_eq_true.mpr ⟨e, mem, array⟩)

end Assignments

end BeIndexer
