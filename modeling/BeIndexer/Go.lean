import Mathlib.Algebra.Ring.Nat
import Mathlib.Data.List.Forall2

/-!
# The Go values the indexer handles

Queries and expressions carry values of Go's `interface{}`. `Value` lists the dynamic types the
parsers distinguish; every other type is an `other` of its reflect kind. Strings are byte strings,
since Go does not require them to be UTF-8. A call that can fail returns a `Go` result, which keeps
an error that is returned apart from a panic and from a loop that never ends.
-/

namespace BeIndexer

/-- A Go string: any bytes. -/
abbrev GoString := List UInt8

instance GoString.instLawfulBEq : LawfulBEq GoString := inferInstanceAs (LawfulBEq (List UInt8))

/-- The bytes of a string literal of the source. -/
def str (s : String) : GoString := s.toUTF8.data.toList

/-- A `float64` (or a `float32` widened to one), by its bits. -/
structure GoFloat where
  bits : UInt64
  deriving DecidableEq, Repr

inductive IntKind where
  | int | int8 | int16 | int32 | int64 | uint | uint8 | uint16 | uint32 | uint64
  deriving DecidableEq, Repr

inductive FloatKind where
  | float32 | float64
  deriving DecidableEq, Repr

/-- The reflect kinds that no parser accepts, arrays of length two of the parsers' types apart. -/
inductive OtherKind where
  | bool | complex | struct | func | array | ptr | map | chan | slice
  deriving DecidableEq, Repr

/-- What an `interface{}` holds when it is no slice or array: also an element of a `[]interface{}`,
where slices and the like appear as `other`. -/
inductive Scalar where
  | nil
  | int (kind : IntKind) (n : Int)
  | float (kind : FloatKind) (x : GoFloat)
  | string (s : GoString)
  | jsonNumber (s : GoString)
  | other (kind : OtherKind) (isNil : Bool)
  deriving DecidableEq, Repr

abbrev Slice (α : Type) := Option (List α)

def Slice.elems {α : Type} (s : Slice α) : List α := s.getD []

/-- The dynamic values of `Values interface{}`. -/
inductive Value where
  | scalar (s : Scalar)
  | ints (kind : IntKind) (ns : Slice Int)
  | floats (kind : FloatKind) (xs : Slice GoFloat)
  | strings (ss : Slice GoString)
  | jsonNumbers (ss : Slice GoString)
  | ifaces (vs : Slice Scalar)
  | int64Pair (l r : Int64)
  | float64Pair (x y : GoFloat)
  deriving DecidableEq, Repr

/-- An `int64` as an `interface{}`. -/
def int64Value (x : Int64) : Value := .scalar (.int .int64 x.toInt)

/-! ### Errors and panics -/

inductive GoArg where
  | str (s : GoString)
  | int (n : Int)
  | val (v : Value)
  deriving DecidableEq, Repr

/-- An error: the format the source passes to `fmt.Errorf` and its arguments. -/
inductive GoError where
  | errorf (format : String) (args : List GoArg)
  | wrapf (format : String) (args : List GoArg) (cause : GoError)
  deriving DecidableEq, Repr

/-- How a call can fail to return a value: it returns an error, panics, or does not return at all. -/
inductive Fault where
  | err (e : GoError)
  | panic (e : GoError)
  | hang
  deriving DecidableEq, Repr

abbrev Go (α : Type) := Except Fault α

def errorf {α : Type} (format : String) (args : List GoArg) : Go α := .error (.err (.errorf format args))

def wrapf {α : Type} (format : String) (args : List GoArg) (cause : GoError) : Go α :=
  .error (.err (.wrapf format args cause))

def panicf {α : Type} (format : String) (args : List GoArg) : Go α := .error (.panic (.errorf format args))

def panicIf (cond : Bool) (format : String) (args : List GoArg) : Go Unit :=
  if cond then panicf format args else .ok ()

/-- `return fmt.Errorf(format, args, err)` on an error of `r`; a panic passes through. -/
def wrapErr {α : Type} (format : String) (args : List GoArg) (r : Go α) : Go α :=
  match r with
  | .error (.err cause) => wrapf format args cause
  | r => r

def panicIfErr {α : Type} (format : String) (args : List GoArg) (r : Go α) : Go α :=
  match r with
  | .error (.err cause) => .error (.panic (.wrapf format args cause))
  | r => r

def returnsErr {α : Type} : Go α → Bool
  | .error (.err _) => true
  | _ => false

theorem returnsErr_iff {α : Type} {r : Go α} : returnsErr r = true ↔ ∃ e, r = .error (.err e) := by
  rcases r with (_ | _ | _) | _ <;> simp [returnsErr]

def okAnd {α : Type} (p : α → Bool) : Go α → Bool
  | .ok a => p a
  | .error _ => false

theorem okAnd_iff {α : Type} {p : α → Bool} {r : Go α} : okAnd p r = true ↔ ∃ a, r = .ok a ∧ p a = true := by
  cases r <;> simp [okAnd]

def panics {α : Type} : Go α → Bool
  | .error (.panic _) => true
  | _ => false

theorem panics_iff {α : Type} {r : Go α} : panics r = true ↔ ∃ e, r = .error (.panic e) := by
  rcases r with (_ | _ | _) | _ <;> simp [panics]

def Returns {α : Type} (r : Go α) : Prop := (∃ a, r = .ok a) ∨ ∃ e, r = .error (.err e)

theorem fault_of_not_returns {α : Type} {r : Go α} (not : ¬ Returns r) :
    ∃ fault, r = .error fault ∧ ∀ e, fault ≠ .err e := by
  cases r with
  | ok a => exact absurd (Or.inl ⟨a, rfl⟩) not
  | error fault => exact ⟨fault, rfl, fun e same => not (Or.inr ⟨e, same ▸ rfl⟩)⟩

theorem Returns.bind {α β : Type} {x : Go α} {f : α → Go β} (first : Returns x)
    (next : ∀ a, x = .ok a → Returns (f a)) : Returns (x >>= f) := by
  rcases first with ⟨a, rfl⟩ | ⟨e, rfl⟩
  · exact next a rfl
  · exact Or.inr ⟨e, rfl⟩

theorem Returns.of_bind {α β : Type} {x : Go α} {f : α → Go β} (whole : Returns (x >>= f)) : Returns x := by
  cases x with
  | ok a => exact Or.inl ⟨a, rfl⟩
  | error fault =>
    rcases whole with ⟨_, absurd⟩ | ⟨e, failed⟩
    · cases absurd
    · exact Or.inr ⟨e, congrArg Except.error (Except.error.inj failed)⟩

theorem returns_map_iff {α β : Type} {x : Go α} {f : α → β} : Returns (x.map f) ↔ Returns x := by
  cases x <;> simp [Returns, Except.map]

theorem not_returns_panic {α : Type} {r : Go α} {e : GoError} (panics : r = .error (.panic e)) : ¬ Returns r := by
  subst panics
  rintro (⟨_, absurd⟩ | ⟨_, absurd⟩) <;> cases absurd

theorem wrapErr_eq_ok {α : Type} {format : String} {args : List GoArg} {r : Go α} {a : α} :
    wrapErr format args r = .ok a ↔ r = .ok a := by
  cases r with
  | ok b => simp [wrapErr]
  | error f => cases f <;> simp [wrapErr, wrapf]

theorem panicIfErr_eq_ok {α : Type} {format : String} {args : List GoArg} {r : Go α} {a : α} :
    panicIfErr format args r = .ok a ↔ r = .ok a := by
  cases r with
  | ok b => simp [panicIfErr]
  | error f => cases f <;> simp [panicIfErr]

theorem panicIf_eq_ok {cond : Bool} {format : String} {args : List GoArg} :
    panicIf cond format args = .ok () ↔ cond = false := by
  cases cond <;> simp [panicIf, panicf]

theorem bind_eq_ok {α β : Type} {x : Go α} {f : α → Go β} {b : β} :
    (x >>= f) = .ok b ↔ ∃ a, x = .ok a ∧ f a = .ok b := by
  cases x with
  | ok a => simp [bind, Except.bind]
  | error e => simp [bind, Except.bind]

theorem map_eq_ok {ε α β : Type} {x : Except ε α} {f : α → β} {b : β} :
    x.map f = .ok b ↔ ∃ a, x = .ok a ∧ f a = b := by
  cases x with
  | ok a => simp [Except.map]
  | error e => simp [Except.map]

theorem forall₂_left {α β : Type} {R : α → β → Prop} {as : List α} {bs : List β} (each : List.Forall₂ R as bs) {a : α}
    (mem : a ∈ as) : ∃ b ∈ bs, R a b := by
  induction each with
  | nil => cases mem
  | cons head _ ih =>
    rcases List.mem_cons.mp mem with rfl | later
    · exact ⟨_, List.mem_cons_self, head⟩
    · obtain ⟨b, hb, related⟩ := ih later
      exact ⟨b, List.mem_cons_of_mem _ hb, related⟩

theorem forall₂_right {α β : Type} {R : α → β → Prop} {as : List α} {bs : List β} (each : List.Forall₂ R as bs) {b : β}
    (mem : b ∈ bs) : ∃ a ∈ as, R a b :=
  forall₂_left (R := fun b a => R a b) each.flip mem

theorem forall₂_mem {α β : Type} {R : α → β → Prop} {as : List α} {bs : List β} (each : List.Forall₂ R as bs) :
    List.Forall₂ (fun a b => b ∈ bs ∧ R a b) as bs := by
  induction each with
  | nil => exact .nil
  | cons head _ ih =>
    exact .cons ⟨List.mem_cons_self, head⟩ (ih.imp fun _ _ h => ⟨List.mem_cons_of_mem _ h.1, h.2⟩)

theorem mapM_eq_ok {α β : Type} {f : α → Go β} {as : List α} {bs : List β} :
    as.mapM f = .ok bs ↔ List.Forall₂ (fun a b => f a = .ok b) as bs := by
  induction as generalizing bs with
  | nil =>
    rw [List.forall₂_nil_left_iff]
    exact ⟨fun h => (Except.ok.inj h).symm, fun h => h ▸ rfl⟩
  | cons a as ih =>
    rw [List.mapM_cons, bind_eq_ok]
    constructor
    · rintro ⟨b, hb, rest⟩
      obtain ⟨bs', hbs, done⟩ := bind_eq_ok.mp rest
      obtain rfl := Except.ok.inj done
      exact .cons hb (ih.mp hbs)
    · intro h
      cases h with
      | cons hb hbs => exact ⟨_, hb, bind_eq_ok.mpr ⟨_, ih.mpr hbs, rfl⟩⟩

theorem mapM_pure {α β : Type} {f : α → Go β} {g : α → β} {as : List α} (each : ∀ a ∈ as, f a = .ok (g a)) :
    as.mapM f = .ok (as.map g) :=
  mapM_eq_ok.mpr (List.forall₂_map_right_iff.mpr (List.forall₂_same.mpr each))

theorem mapM_mem {α β : Type} {f : α → Go β} {as : List α} {bs : List β} (run : as.mapM f = .ok bs) {a : α}
    (mem : a ∈ as) : ∃ b ∈ bs, f a = .ok b :=
  forall₂_left (mapM_eq_ok.mp run) mem

theorem mem_mapM {α β : Type} {f : α → Go β} {as : List α} {bs : List β} (run : as.mapM f = .ok bs) {b : β}
    (mem : b ∈ bs) : ∃ a ∈ as, f a = .ok b :=
  forall₂_right (mapM_eq_ok.mp run) mem

theorem mapM_map {α β γ : Type} (f : α → Go β) (g : β → γ) (as : List α) :
    as.mapM (fun a => (f a).map g) = (as.mapM f).map (List.map g) := by
  induction as with
  | nil => rfl
  | cons a as ih =>
    rw [List.mapM_cons, List.mapM_cons, ih]
    cases f a with
    | error e => rfl
    | ok b =>
      change (as.mapM f).map (List.map g) >>= _ = ((as.mapM f) >>= _).map (List.map g)
      cases as.mapM f <;> rfl

section Loops

variable {α β : Type} {f : α → Go β} {as : List α} {bs : List β}

theorem mapM_runs (each : ∀ a ∈ as, ∃ b, f a = .ok b) : ∃ bs, as.mapM f = .ok bs := by
  induction as with
  | nil => exact ⟨[], rfl⟩
  | cons a as ih =>
    obtain ⟨b, first⟩ := each a List.mem_cons_self
    obtain ⟨bs, rest⟩ := ih fun a mem => each a (List.mem_cons_of_mem _ mem)
    exact ⟨b :: bs, by rw [List.mapM_cons, first, rest]; rfl⟩

theorem mapM_congr {g : α → Go β} (same : ∀ a ∈ as, f a = g a) : as.mapM f = as.mapM g := by
  induction as with
  | nil => rfl
  | cons a as ih =>
    rw [List.mapM_cons, List.mapM_cons, same a List.mem_cons_self, ih fun a mem => same a (List.mem_cons_of_mem _ mem)]

theorem mapM_error {fault : Fault} (run : as.mapM f = .error fault) : ∃ a ∈ as, f a = .error fault := by
  induction as with
  | nil => cases run
  | cons a as ih =>
    rw [List.mapM_cons] at run
    cases first : f a with
    | error fault' =>
      rw [first] at run
      cases run
      exact ⟨a, List.mem_cons_self, first⟩
    | ok b =>
      have rest : as.mapM f = .error fault := by
        rw [first] at run
        cases later : as.mapM f with
        | error fault' =>
          rw [later] at run
          cases run
          rfl
        | ok bs =>
          rw [later] at run
          cases run
      obtain ⟨a', mem, failed⟩ := ih rest
      exact ⟨a', List.mem_cons_of_mem _ mem, failed⟩

theorem Returns.mapM (each : ∀ a ∈ as, Returns (f a)) : Returns (as.mapM f) := by
  cases run : as.mapM f with
  | ok bs => exact Or.inl ⟨bs, rfl⟩
  | error fault =>
    obtain ⟨a, mem, failed⟩ := mapM_error run
    rcases each a mem with ⟨b, ran⟩ | ⟨e, ran⟩
    · cases failed.symm.trans ran
    · obtain rfl := Except.error.inj (failed.symm.trans ran)
      exact Or.inr ⟨e, rfl⟩

theorem mapM_filter {p : α → Bool} {q : β → Bool} (same : ∀ a b, f a = .ok b → p a = q b) (run : as.mapM f = .ok bs) :
    (as.filter p).mapM f = .ok (bs.filter q) := by
  rw [mapM_eq_ok] at run ⊢
  induction run with
  | nil => exact .nil
  | @cons a b _ _ head _ ih =>
    rw [List.filter_cons, List.filter_cons, same a b head]
    split
    · exact .cons head ih
    · exact ih

theorem mapM_related {γ : Type} {g : β → Go γ} {S : α → γ → Prop}
    (each : List.Forall₂ (fun a b => ∃ c, g b = .ok c ∧ S a c) as bs) :
    ∃ cs, bs.mapM g = .ok cs ∧ List.Forall₂ S as cs := by
  induction each with
  | nil => exact ⟨[], rfl, .nil⟩
  | cons head _ ih =>
    obtain ⟨c, first, related⟩ := head
    obtain ⟨cs, rest, all⟩ := ih
    exact ⟨c :: cs, by rw [List.mapM_cons, first, rest]; rfl, .cons related all⟩

theorem forall₂_join {γ : Type} {R : α → β → Prop} {S : α → γ → Prop} {T : β → γ → Prop} {cs : List γ}
    (join : ∀ a b c, R a b → S a c → T b c) (first : List.Forall₂ R as bs) (second : List.Forall₂ S as cs) :
    List.Forall₂ T bs cs := by
  induction first generalizing cs with
  | nil =>
    cases second
    exact .nil
  | cons head _ ih =>
    cases second with
    | cons head' tail' => exact .cons (join _ _ _ head head') (ih tail')

end Loops

/-! ### `reflect`, `strconv` and `fmt` -/

/-- `util.NilInterface`. `IsNil` panics on an array. -/
def nilInterface : Value → Go Bool
  | .scalar .nil => .ok true
  | .scalar (.other .array _) => panicf "reflect: call of reflect.Value.IsNil on array Value" []
  | .scalar (.other .ptr isNil) => .ok isNil
  | .scalar (.other .map isNil) => .ok isNil
  | .scalar (.other .chan isNil) => .ok isNil
  | .scalar (.other .slice isNil) => .ok isNil
  | .scalar _ => .ok false
  | .ints _ ns => .ok ns.isNone
  | .floats _ xs => .ok xs.isNone
  | .strings ss => .ok ss.isNone
  | .jsonNumbers ss => .ok ss.isNone
  | .ifaces vs => .ok vs.isNone
  | .int64Pair _ _ => panicf "reflect: call of reflect.Value.IsNil on array Value" []
  | .float64Pair _ _ => panicf "reflect: call of reflect.Value.IsNil on array Value" []

def Value.isArray : Value → Bool
  | .scalar (.other .array _) => true
  | .int64Pair _ _ => true
  | .float64Pair _ _ => true
  | _ => false

/-- No value, or a nil pointer, map, channel or slice. -/
def Value.isNil : Value → Bool
  | .scalar .nil => true
  | .scalar (.other .ptr isNil) => isNil
  | .scalar (.other .map isNil) => isNil
  | .scalar (.other .chan isNil) => isNil
  | .scalar (.other .slice isNil) => isNil
  | .ints _ ns => ns.isNone
  | .floats _ xs => xs.isNone
  | .strings ss => ss.isNone
  | .jsonNumbers ss => ss.isNone
  | .ifaces vs => vs.isNone
  | _ => false

theorem nilInterface_eq (v : Value) :
    nilInterface v =
      if v.isArray then panicf "reflect: call of reflect.Value.IsNil on array Value" [] else .ok v.isNil := by
  cases v with
  | scalar s =>
    cases s with
    | other kind isNil => cases kind <;> rfl
    | _ => rfl
  | _ => rfl

/-- The floating point operations of the standard library that the parsers call. -/
class FloatOps where
  /-- `fmt.Sprintf("%v", x)`. -/
  sprintV : FloatKind → GoFloat → GoString
  /-- `int64(x)`. -/
  toInt64 : GoFloat → Int64
  /-- `strconv.ParseFloat(s, 64)`. -/
  parseFloat : GoString → Option GoFloat

/-- Operations for inputs in which no floating point number occurs. -/
@[reducible]
def FloatOps.noFloats : FloatOps where
  sprintV _ _ := []
  toInt64 _ := 0
  parseFloat _ := none

/-- `fmt.Sprintf("%v", n)` of an integer. -/
def sprintInt (n : Int) : GoString :=
  let digits := (Nat.toDigits 10 n.natAbs).map (fun c => c.toNat.toUInt8)
  if n < 0 then 45 :: digits else digits

/-- The value of a nonempty string of decimal digits. -/
def parseDigits (s : GoString) : Option Nat :=
  if s.isEmpty then none
  else s.foldl (fun acc c => acc.bind fun n =>
    if 48 ≤ c ∧ c ≤ 57 then some (10 * n + (c.toNat - 48)) else none) (some 0)

theorem parseDigits_digits {s : GoString} {n : Nat} (h : parseDigits s = some n) : ∀ c ∈ s, 48 ≤ c ∧ c ≤ 57 := by
  have loop : ∀ (s : GoString) (acc : Option Nat), s.foldl (fun acc c => acc.bind fun n =>
      if 48 ≤ c ∧ c ≤ 57 then some (10 * n + (c.toNat - 48)) else none) acc = some n →
      acc.isSome = true ∧ ∀ c ∈ s, 48 ≤ c ∧ c ≤ 57 := by
    intro s
    induction s with
    | nil => exact fun acc h => ⟨by rw [show acc = some n from h]; rfl, by simp⟩
    | cons c s ih =>
      intro acc h
      obtain ⟨kept, digits⟩ := ih _ h
      cases acc with
      | none => simp at kept
      | some m =>
        have digit : 48 ≤ c ∧ c ≤ 57 := by
          by_contra other
          simp [other] at kept
        exact ⟨rfl, List.forall_mem_cons.mpr ⟨digit, digits⟩⟩
  unfold parseDigits at h
  split at h
  · cases h
  · exact (loop s _ h).2

/-- `strconv.ParseInt(s, 10, 64)`: an optional sign, then digits, in the range of `int64`. -/
def parseInt (s : GoString) : Option Int64 :=
  match s with
  | 43 :: rest => (parseDigits rest).bind fun n => if n < 2 ^ 63 then some (Int64.ofInt n) else none
  | 45 :: rest => (parseDigits rest).bind fun n => if n ≤ 2 ^ 63 then some (Int64.ofInt (-n)) else none
  | _ => (parseDigits s).bind fun n => if n < 2 ^ 63 then some (Int64.ofInt n) else none

/-- Nothing but a sign and digits is read as a number. -/
theorem parseInt_chars {s : GoString} {n : Int64} (h : parseInt s = some n) :
    ∀ c ∈ s, c = 43 ∨ c = 45 ∨ (48 ≤ c ∧ c ≤ 57) := by
  unfold parseInt at h
  split at h <;> obtain ⟨m, digits, -⟩ := Option.bind_eq_some_iff.mp h <;> intro c mem
  · rcases List.mem_cons.mp mem with sign | mem
    · exact Or.inl sign
    · exact Or.inr (Or.inr (parseDigits_digits digits c mem))
  · rcases List.mem_cons.mp mem with sign | mem
    · exact Or.inr (Or.inl sign)
    · exact Or.inr (Or.inr (parseDigits_digits digits c mem))
  · exact Or.inr (Or.inr (parseDigits_digits digits c mem))

example : parseInt (str "-9223372036854775808") = some Int64.minValue := by decide
example : parseInt (str "1_0") = none := by decide
example : sprintInt (-120) = str "-120" := by decide

end BeIndexer
