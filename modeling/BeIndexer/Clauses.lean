import BeIndexer.Document

/-!
# Writing documents (`document.go`, `boolean_expr.go`)

A conjunction is written by calls, each of which appends one expression to those of its field.
-/

namespace BeIndexer

def newBoolValue (op : ValueOpt) (value : Value) (incl : Bool) : BoolValues := ⟨incl, value, op⟩

def newGTBoolValue (value : Int64) : BoolValues := newBoolValue .gt (int64Value value) true

def newLTBoolValue (value : Int64) : BoolValues := newBoolValue .lt (int64Value value) true

structure BooleanExpr extends BoolValues where
  field : BEField

def newConjunction : Conjunction := ⟨∅⟩

namespace Conjunction

def addExpression (conj : Conjunction) (field : BEField) (boolValues : BoolValues) : Conjunction :=
  ⟨conj.expressions.insert field (conj.exprs field ++ [boolValues])⟩

def addBoolExprs (conj : Conjunction) (exprs : List BooleanExpr) : Conjunction :=
  exprs.foldl (fun conj expr => conj.addExpression expr.field expr.toBoolValues) conj

/-- `In`. -/
def inValues (conj : Conjunction) (field : BEField) (values : Value) : Conjunction :=
  conj.addExpression field (newBoolValue .eq values true)

def notIn (conj : Conjunction) (field : BEField) (values : Value) : Conjunction :=
  conj.addExpression field (newBoolValue .eq values false)

/-- `Include`. -/
def includeValues (conj : Conjunction) (field : BEField) (values : Value) : Conjunction :=
  conj.addExpression field (newBoolValue .eq values true)

/-- `Exclude`. -/
def excludeValues (conj : Conjunction) (field : BEField) (values : Value) : Conjunction :=
  conj.addExpression field (newBoolValue .eq values false)

def addExpression3 (conj : Conjunction) (field : BEField) (incl : Bool) (values : Value) : Conjunction :=
  conj.addExpression field (newBoolValue .eq values incl)

def greaterThan (conj : Conjunction) (field : BEField) (value : Int64) : Conjunction :=
  conj.addBoolExprs [⟨newGTBoolValue value, field⟩]

def lessThan (conj : Conjunction) (field : BEField) (value : Int64) : Conjunction :=
  conj.addBoolExprs [⟨newLTBoolValue value, field⟩]

def between (conj : Conjunction) (field : BEField) (l h : Int64) : Conjunction :=
  conj.addBoolExprs [⟨newBoolValue .between (.ints .int64 (some [l.toInt, h.toInt])) true, field⟩]

theorem addExpression_exprs (conj : Conjunction) (f g : BEField) (bv : BoolValues) :
    (conj.addExpression f bv).exprs g = if g = f then conj.exprs g ++ [bv] else conj.exprs g := by
  unfold addExpression
  by_cases same : g = f
  · subst same
    rw [if_pos rfl, exprs, AList.lookup_insert]
    rfl
  · rw [if_neg same, exprs, AList.lookup_insert_ne same]
    rfl

theorem newConjunction_exprs (f : BEField) : newConjunction.exprs f = [] := rfl

end Conjunction

def newDocument (id : DocID) : Document := ⟨id, 0, []⟩

def Document.addConjunction (doc : Document) (cons : List Conjunction) : Document :=
  { doc with cons := cons.foldl (fun cons conj => cons ++ [conj]) doc.cons }

/-! ### Calls -/

/-- One call on a conjunction that is being written; `AddBoolExprs` of several expressions is a call for each. -/
inductive Clause where
  | inValues (field : BEField) (values : Value)
  | notIn (field : BEField) (values : Value)
  | includeValues (field : BEField) (values : Value)
  | excludeValues (field : BEField) (values : Value)
  | addExpression3 (field : BEField) (incl : Bool) (values : Value)
  | greaterThan (field : BEField) (value : Int64)
  | lessThan (field : BEField) (value : Int64)
  | between (field : BEField) (l h : Int64)
  | addBoolExprs (expr : BooleanExpr)

namespace Clause

def run (conj : Conjunction) : Clause → Conjunction
  | .inValues field values => conj.inValues field values
  | .notIn field values => conj.notIn field values
  | .includeValues field values => conj.includeValues field values
  | .excludeValues field values => conj.excludeValues field values
  | .addExpression3 field incl values => conj.addExpression3 field incl values
  | .greaterThan field value => conj.greaterThan field value
  | .lessThan field value => conj.lessThan field value
  | .between field l h => conj.between field l h
  | .addBoolExprs expr => conj.addBoolExprs [expr]

def field : Clause → BEField
  | .inValues field _ | .notIn field _ | .includeValues field _ | .excludeValues field _ | .addExpression3 field _ _
  | .greaterThan field _ | .lessThan field _ | .between field _ _ => field
  | .addBoolExprs expr => expr.field

/-- The expression that the call appends. -/
def expr : Clause → BoolValues
  | .inValues _ values | .includeValues _ values => newBoolValue .eq values true
  | .notIn _ values | .excludeValues _ values => newBoolValue .eq values false
  | .addExpression3 _ incl values => newBoolValue .eq values incl
  | .greaterThan _ value => newGTBoolValue value
  | .lessThan _ value => newLTBoolValue value
  | .between _ l h => newBoolValue .between (.ints .int64 (some [l.toInt, h.toInt])) true
  | .addBoolExprs expr => expr.toBoolValues

theorem run_eq (conj : Conjunction) (call : Clause) : call.run conj = conj.addExpression call.field call.expr := by
  cases call <;> rfl

end Clause

def Conjunction.write (calls : List Clause) : Conjunction := calls.foldl Clause.run newConjunction

theorem Conjunction.write_addBoolExprs (calls : List Clause) (exprs : List BooleanExpr) :
    (Conjunction.write calls).addBoolExprs exprs = Conjunction.write (calls ++ exprs.map .addBoolExprs) := by
  rw [Conjunction.write, Conjunction.write, List.foldl_append, List.foldl_map]
  rfl

theorem Conjunction.write_exprs (calls : List Clause) (f : BEField) :
    (Conjunction.write calls).exprs f = (calls.filter fun call => call.field = f).map Clause.expr := by
  have loop : ∀ conj : Conjunction, (calls.foldl Clause.run conj).exprs f =
      conj.exprs f ++ (calls.filter fun call => call.field = f).map Clause.expr := by
    induction calls with
    | nil => simp
    | cons call calls ih =>
      intro conj
      rw [List.foldl_cons, ih, Clause.run_eq, Conjunction.addExpression_exprs]
      by_cases here : call.field = f
      · rw [if_pos here.symm, List.filter_cons_of_pos (by simpa using here), List.map_cons, List.append_assoc]
        rfl
      · rw [if_neg fun same => here same.symm, List.filter_cons_of_neg (by simpa using here)]
  rw [Conjunction.write, loop, Conjunction.newConjunction_exprs, List.nil_append]

theorem Conjunction.mem_write {calls : List Clause} {f : BEField} {bv : BoolValues} :
    bv ∈ (Conjunction.write calls).exprs f ↔ ∃ call ∈ calls, call.field = f ∧ call.expr = bv := by
  rw [Conjunction.write_exprs]
  simp [and_assoc]

/-- Documents hold what the calls of each conjunction write, whichever way their maps are visited. -/
def Document.WrittenBy (text : List (List Clause)) (doc : Document) : Prop :=
  List.Forall₂ (fun conj calls => conj.Same (Conjunction.write calls)) doc.cons text

theorem Document.addConjunction_cons (doc : Document) (cons : List Conjunction) :
    (doc.addConjunction cons).cons = doc.cons ++ cons := by
  have loop : ∀ start : List Conjunction, cons.foldl (fun cons conj => cons ++ [conj]) start = start ++ cons := by
    induction cons with
    | nil => simp
    | cons conj cons ih =>
      intro start
      rw [List.foldl_cons, ih]
      simp
  exact loop doc.cons

theorem Document.writtenBy_new (id : DocID) (text : List (List Clause)) :
    ((newDocument id).addConjunction (text.map Conjunction.write)).WrittenBy text := by
  unfold Document.WrittenBy
  rw [Document.addConjunction_cons, newDocument, List.nil_append, List.forall₂_map_left_iff, List.forall₂_same]
  exact fun calls _ => GoMap.Same.refl _

end BeIndexer
