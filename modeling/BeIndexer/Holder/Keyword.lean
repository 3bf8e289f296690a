import BeIndexer.Document
import BeIndexer.Scanner
import Mathlib.Data.List.Infix

/-!
# The keyword container (`ahocorasick_holder.go`, `aho_match_helper.go`)

The third-party matcher is a parameter. It works on runes, so Go's conversion of a string to runes
is modelled with its replacement of invalid bytes.
-/

namespace BeIndexer

abbrev Rune := Nat

/-- `aho.Machine`: building it from the patterns can fail, searching reports the words found. -/
class AhoMachine where
  build : List (List Rune) → Except GoError Unit
  multiPatternSearch : List (List Rune) → List Rune → List (List Rune)

/-- A machine that tries every pattern. -/
@[reducible]
def AhoMachine.naive : AhoMachine where
  build _ := .ok ()
  multiPatternSearch words content := words.filter fun word => decide (word <:+: content)

/-! ### Strings and runes -/

def runeError : Rune := 0xFFFD

/-- A continuation byte in the given range. -/
def inRange (lo hi : UInt8) (b : UInt8) : Bool := lo ≤ b && b ≤ hi

/-- The range that the second byte of a sequence must lie in, and the length of the sequence. -/
def sequenceOf (b : UInt8) : Option (Nat × UInt8 × UInt8) :=
  if inRange 0xC2 0xDF b then some (2, 0x80, 0xBF)
  else if b == 0xE0 then some (3, 0xA0, 0xBF)
  else if b == 0xED then some (3, 0x80, 0x9F)
  else if inRange 0xE1 0xEF b then some (3, 0x80, 0xBF)
  else if b == 0xF0 then some (4, 0x90, 0xBF)
  else if inRange 0xF1 0xF3 b then some (4, 0x80, 0xBF)
  else if b == 0xF4 then some (4, 0x80, 0x8F)
  else none

/-- `utf8.DecodeRuneInString`: the rune and the number of bytes after the first that belong to it. -/
def decodeRune (b : UInt8) (rest : GoString) : Rune × Nat :=
  if b < 0x80 then (b.toNat, 0)
  else
    match sequenceOf b, rest with
    | some (2, lo, hi), b₁ :: _ =>
      if inRange lo hi b₁ then ((b.toNat % 32) * 64 + b₁.toNat % 64, 1) else (runeError, 0)
    | some (3, lo, hi), b₁ :: b₂ :: _ =>
      if inRange lo hi b₁ && inRange 0x80 0xBF b₂ then
        ((b.toNat % 16) * 4096 + (b₁.toNat % 64) * 64 + b₂.toNat % 64, 2)
      else (runeError, 0)
    | some (4, lo, hi), b₁ :: b₂ :: b₃ :: _ =>
      if inRange lo hi b₁ && inRange 0x80 0xBF b₂ && inRange 0x80 0xBF b₃ then
        ((b.toNat % 8) * 262144 + (b₁.toNat % 64) * 4096 + (b₂.toNat % 64) * 64 + b₃.toNat % 64, 3)
      else (runeError, 0)
    | _, _ => (runeError, 0)

/-- The loop of `[]rune(s)`, which takes at most one step for each byte. -/
def runesFrom : Nat → GoString → List Rune
  | 0, _ => []
  | _, [] => []
  | n + 1, b :: rest => (decodeRune b rest).1 :: runesFrom n (rest.drop (decodeRune b rest).2)

/-- `[]rune(s)`. -/
def runes (s : GoString) : List Rune := runesFrom s.length s

/-- `utf8.AppendRune`: surrogates and values past U+10FFFF are written as U+FFFD. -/
def encodeRune (r : Rune) : GoString :=
  let r := if 0x10FFFF < r || (0xD800 ≤ r && r ≤ 0xDFFF) then runeError else r
  if r < 0x80 then [r.toUInt8]
  else if r < 0x800 then [(0xC0 + r / 64).toUInt8, (0x80 + r % 64).toUInt8]
  else if r < 0x10000 then [(0xE0 + r / 4096).toUInt8, (0x80 + r / 64 % 64).toUInt8, (0x80 + r % 64).toUInt8]
  else [(0xF0 + r / 262144).toUInt8, (0x80 + r / 4096 % 64).toUInt8, (0x80 + r / 64 % 64).toUInt8,
    (0x80 + r % 64).toUInt8]

/-- `string(rs)`. -/
def stringOfRunes (rs : List Rune) : GoString := rs.flatMap encodeRune

example : runes (str "é€") = [0xE9, 0x20AC] := by decide
example : runes [0xE2, 0x82, 0x41] = [0xFFFD, 0xFFFD, 0x41] := by decide

/-! ### Keywords and contents -/

def parseAcMatchDict : Value → Go (List GoString)
  | .scalar (.string s) => .ok [s]
  | .ints .uint8 ns => .ok [ns.elems.map fun n => n.toNat.toUInt8]
  | .strings ss => .ok ss.elems
  | .ifaces vs => vs.elems.mapM fun
      | .string s => .ok s
      | vi => errorf "not string(able) value, value:%+v" [.val (.scalar vi)]
  | v => errorf "not string(able) value, value:%+v" [.val v]

def joinStrings (sep : GoString) (ss : List GoString) : GoString := (ss.intersperse sep).flatten

def buildAcMatchContent (v : Value) (joinSep : GoString) : Go (List Rune) :=
  match v with
  | .scalar (.string s) => .ok (runes s)
  | .strings ss => .ok (runes (joinStrings joinSep ss.elems))
  | .ifaces vs => do
    let parts ← vs.elems.mapM fun
      | .string s => .ok (runes s)
      | _ => errorf "query assign:%+v not string type" [.val v]
    return (parts.intersperse (runes joinSep)).flatten
  | v => errorf "query assign:%+v not string type" [.val v]

structure ACEntriesHolder where
  querySep : GoString
  values : GoMap GoString Entries
  machine : List (List Rune)

def newACEntriesHolder (querySep : GoString) : ACEntriesHolder where
  querySep := querySep
  values := ∅
  machine := []

namespace ACEntriesHolder

/-- `BuildFieldIndexingData` does not read the holder. -/
def buildFieldIndexingData (bv : BoolValues) : Go (List GoString) := do
  panicIf (bv.operator != .eq) "ac_matcher container support EQ operator only" []
  wrapErr "ac holder need string(able) value, err:%v" [] (parseAcMatchDict bv.value)

/-- `CommitFieldIndexingData`: a keyword that is listed twice gets the entry id twice. -/
def commitFieldIndexingData (h : ACEntriesHolder) (eid : EntryID) (keys : List GoString) : ACEntriesHolder :=
  { h with values := keys.foldl (fun values v => values.insert v ((values.lookup v).getD [] ++ [eid])) h.values }

theorem commit_lookup (h : ACEntriesHolder) (eid : EntryID) (keys : List GoString) (key : GoString) :
    ((h.commitFieldIndexingData eid keys).values.lookup key).getD [] =
      (h.values.lookup key).getD [] ++ List.replicate (keys.count key) eid := by
  obtain ⟨sep, values, machine⟩ := h
  induction keys generalizing values with
  | nil => simp [commitFieldIndexingData]
  | cons v keys ih =>
    refine (ih (values.insert v ((values.lookup v).getD [] ++ [eid]))).trans ?_
    by_cases same : key = v
    · subst same
      simp [AList.lookup_insert, List.replicate_succ]
    · rw [AList.lookup_insert_ne same, List.count_cons_of_ne (Ne.symm same)]

def sortValues (values : GoMap GoString Entries) : GoMap GoString Entries where
  entries := values.entries.map fun e => ⟨e.1, sortEntries e.2⟩
  nodupKeys := by
    have keys : (values.entries.map fun e => (⟨e.1, sortEntries e.2⟩ : Sigma fun _ : GoString => Entries)).keys =
        values.entries.keys := by simp [List.keys]
    rw [List.NodupKeys, keys]
    exact values.nodupKeys

variable [AhoMachine]

def compileEntries (h : ACEntriesHolder) : Go ACEntriesHolder :=
  let keys := h.values.entries.map fun e => runes e.1
  if keys.isEmpty then .ok h
  else do
    (AhoMachine.build keys).mapError Fault.err
    return { h with values := sortValues h.values, machine := keys }

def getEntries (h : ACEntriesHolder) (assigns : Value) : Go EntriesCursors := do
  if h.values.entries.isEmpty then return []
  let buf ← buildAcMatchContent assigns h.querySep
  if buf.isEmpty then return []
  return (AhoMachine.multiPatternSearch h.machine buf).filterMap fun word =>
    match h.values.lookup (stringOfRunes word) with
    | some (eid :: pl) => some (newEntriesCursor (eid :: pl))
    | _ => none

end ACEntriesHolder

end BeIndexer
