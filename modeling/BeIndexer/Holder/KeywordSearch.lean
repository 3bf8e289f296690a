import BeIndexer.Holder.Range
import BeIndexer.Holder.Runes
import BeIndexer.Lib.Words

/-!
# Searching for keywords (`aho_match_helper.go`)

The values of a query are joined into one content, and the keywords that occur in it are looked up by
the strings their runes make. `AhoMachine.Documented` is what the matcher promises.
-/

namespace BeIndexer

/-! ### Joined contents -/

/-- Where a joined text goes on after the separator `b`, there is a valid string, or `b` again. -/
theorem joinStrings_head {b : UInt8} {ss : List GoString} (valid : ∀ s ∈ ss, ValidUtf8 s) :
    ∀ c ∈ (joinStrings [b] ss).head?, c = b ∨ ¬ Continues c := by
  intro c first
  match ss with
  | [] => cases first
  | [[]] => cases first
  | [x :: s] =>
    obtain rfl : x = c := by simpa [joinStrings] using first
    exact Or.inr (valid (x :: s) List.mem_cons_self).head_not_continues
  | [] :: _ :: _ =>
    refine Or.inl ?_
    simpa [joinStrings, eq_comm] using first
  | (x :: s) :: _ :: _ =>
    obtain rfl : x = c := by simpa [joinStrings] using first
    exact Or.inr (valid (x :: s) List.mem_cons_self).head_not_continues

/-- The separator is decoded as in isolation, also when it is an invalid byte. -/
theorem runes_separator {sep : GoString} {r : Nat} {ss : List GoString} (single : runes sep = [r])
    (valid : ∀ s ∈ ss, ValidUtf8 s) : runes (sep ++ joinStrings sep ss) = r :: runes (joinStrings sep ss) := by
  rcases single_rune single with validSep | ⟨b, rfl, high, rfl⟩
  · rw [validSep.runes_append, single]
    rfl
  · have invalid : decodeRune b (joinStrings [b] ss) = (runeError, 0) := by
      by_cases continues : Continues b
      · exact decodeRune_invalid (Or.inl continues)
      · refine decodeRune_invalid (Or.inr ⟨high, fun c first => ?_⟩)
        rcases joinStrings_head valid c first with rfl | other
        · exact continues
        · exact other
    rw [List.singleton_append, runes_cons, invalid]
    rfl

theorem runes_joinStrings {sep : GoString} {r : Nat} {ss : List GoString} (single : runes sep = [r])
    (valid : ∀ s ∈ ss, ValidUtf8 s) :
    runes (joinStrings sep ss) = ((ss.map runes).intersperse (runes sep)).flatten := by
  induction ss with
  | nil => rfl
  | cons s ss ih =>
    cases ss with
    | nil => simp [joinStrings]
    | cons t ss =>
      obtain ⟨first, others⟩ := List.forall_mem_cons.mp valid
      have split : joinStrings sep (s :: t :: ss) = s ++ (sep ++ joinStrings sep (t :: ss)) := by
        simp [joinStrings, List.intersperse_cons_cons]
      rw [split, first.runes_append, runes_separator single others, ih others, single]
      simp [List.intersperse_cons_cons]

/-- Joining invents no match and loses none, and it makes no difference whether the values come as
`[]string` or as `[]interface{}`. -/
theorem buildAcMatchContent_joins {ss : Slice GoString} {sep keyword : GoString} {r : Rune}
    (valid : ∀ s ∈ ss.elems, ValidUtf8 s) (single : runes sep = [r]) (nonempty : keyword ≠ [])
    (clean : r ∉ runes keyword) :
    ∃ content, buildAcMatchContent (.strings ss) sep = .ok content ∧
      buildAcMatchContent (.ifaces (ss.map (List.map .string))) sep = .ok content ∧
      (runes keyword <:+: content ↔ ∃ s ∈ ss.elems, runes keyword <:+: runes s) := by
  have joined := runes_joinStrings single valid
  refine ⟨runes (joinStrings sep ss.elems), rfl, ?_, ?_⟩
  · have elems : Slice.elems (ss.map (List.map Scalar.string)) = ss.elems.map .string := by cases ss <;> rfl
    refine bind_eq_ok.mpr ⟨ss.elems.map runes, ?_, congrArg Except.ok joined.symm⟩
    rw [elems, mapM_eq_ok, List.forall₂_map_left_iff, List.forall₂_map_right_iff, List.forall₂_same]
    exact fun _ _ => rfl
  · rw [joined, single, Word.infix_join_iff (mt runes_eq_nil.mp nonempty) clean]
    simp

/-- Of two values joined by a line feed, the second holds the keyword. -/
theorem buildAcMatchContent_joins_two :
    ∃ content, buildAcMatchContent (.strings (some [str "aé", str "éa"])) (str "\n") = .ok content ∧
      runes (str "éa") <:+: content ∧ ¬ runes (str "éé") <:+: content := by
  obtain ⟨content, built, _, occurs⟩ := @buildAcMatchContent_joins (some [str "aé", str "éa"]) (str "\n")
    (str "éa") 10 (by decide) (by decide) (by decide) (by decide)
  refine ⟨content, built, occurs.mpr (by decide), ?_⟩
  obtain rfl := Except.ok.inj built
  decide

/-! ### Keywords of expressions -/

/-- An expression with keywords, and the id it is committed under. -/
structure KeywordExpr where
  id : UInt64
  incl : Bool
  keys : List GoString
  nonempty : ∀ key ∈ keys, key ≠ []

namespace KeywordExpr

variable (xs : List KeywordExpr) (content : List Rune)

def Has (xs : List KeywordExpr) (key : GoString) (id : UInt64) : Prop := ∃ x ∈ xs, x.id = id ∧ key ∈ x.keys

def Found (id : UInt64) : Prop := ∃ key, Has xs key id ∧ runes key <:+: content

def FoundValid (id : UInt64) : Prop := ∃ key, Has xs key id ∧ ValidUtf8 key ∧ runes key <:+: content

variable {xs content} {id : UInt64} {key : GoString}

theorem FoundValid.found (found : FoundValid xs content id) : Found xs content id := by
  obtain ⟨key, has, _, occurs⟩ := found
  exact ⟨key, has, occurs⟩

theorem not_found_nil : ¬ Found xs [] id := by
  intro ⟨key, ⟨x, _, _, mem⟩, occurs⟩
  exact x.nonempty key mem (runes_eq_nil.mp (List.infix_nil.mp occurs))

end KeywordExpr

/-- What the matcher documents: it is built from any nonempty list of nonempty words, and reports those
of them that occur. -/
class AhoMachine.Documented [AhoMachine] : Prop where
  build_ok : ∀ words : List (List Rune), words ≠ [] → (∀ w ∈ words, w ≠ []) → AhoMachine.build words = .ok ()
  search : ∀ (words : List (List Rune)) (content w : List Rune), (∀ w ∈ words, w ≠ []) →
    (w ∈ AhoMachine.multiPatternSearch words content ↔ w ∈ words ∧ w <:+: content)

theorem AhoMachine.naive_documented : let _ := AhoMachine.naive; AhoMachine.Documented :=
  let _ := AhoMachine.naive
  { build_ok := fun _ _ _ => rfl
    search := fun words content w _ => by simp [AhoMachine.multiPatternSearch] }

section Dictionary

variable [AhoMachine] [AhoMachine.Documented] {β : Type} {m : GoMap GoString β} {content : List Rune}

/-- The words of the keys of a map. -/
def wordsOf (m : GoMap GoString β) : List (List Rune) := m.entries.map fun e => runes e.1

omit [AhoMachine] [AhoMachine.Documented] in
theorem mem_wordsOf {w : List Rune} : w ∈ wordsOf m ↔ ∃ key ∈ m, runes key = w := by
  simp [wordsOf, AList.mem_keys, AList.keys, List.keys]

theorem mem_search (nonempty : ∀ key ∈ m, key ≠ []) {w : List Rune} :
    w ∈ AhoMachine.multiPatternSearch (wordsOf m) content ↔ ∃ key ∈ m, runes key = w ∧ runes key <:+: content := by
  rw [AhoMachine.Documented.search, mem_wordsOf]
  · constructor
    · intro ⟨⟨key, mem, same⟩, occurs⟩
      exact ⟨key, mem, same, same ▸ occurs⟩
    · intro ⟨key, mem, same, occurs⟩
      exact ⟨⟨key, mem, same⟩, same ▸ occurs⟩
  · intro w mem
    obtain ⟨key, keyed, rfl⟩ := mem_wordsOf.mp mem
    exact mt runes_eq_nil.mp (nonempty key keyed)

theorem build_wordsOf (nonempty : ∀ key ∈ m, key ≠ []) (some_key : m.entries ≠ []) :
    AhoMachine.build (wordsOf m) = .ok () := by
  apply AhoMachine.Documented.build_ok
  · simpa [wordsOf] using some_key
  · intro w mem
    obtain ⟨key, keyed, rfl⟩ := mem_wordsOf.mp mem
    exact mt runes_eq_nil.mp (nonempty key keyed)

omit [AhoMachine] [AhoMachine.Documented] in
/-- A word that was found is looked up under the string its runes make, which is valid UTF-8. Keys that
are not are never looked up. -/
theorem exists_found_iff {words : List (List Rune)}
    (found : ∀ w, w ∈ words ↔ ∃ key ∈ m, runes key = w ∧ runes key <:+: content) {P : GoString → Prop}
    (keyed : ∀ key, P key → key ∈ m) :
    (∃ w ∈ words, P (stringOfRunes w)) ↔ ∃ key, P key ∧ ValidUtf8 key ∧ runes key <:+: content := by
  constructor
  · intro ⟨w, mem, holds⟩
    obtain ⟨key, _, rfl, occurs⟩ := (found w).mp mem
    refine ⟨_, holds, validUtf8_runes key, ?_⟩
    rwa [runes_stringOfRunes_runes]
  · intro ⟨key, holds, valid, occurs⟩
    refine ⟨runes key, (found _).mpr ⟨key, keyed key holds, rfl, occurs⟩, ?_⟩
    rwa [validUtf8_iff.mp valid]

end Dictionary

/-! ### ACEntriesHolder -/

namespace ACEntriesHolder

open KeywordExpr

/-- The holder after the commits of some expressions. -/
def committed (sep : GoString) (xs : List KeywordExpr) : ACEntriesHolder :=
  xs.foldl (fun h x => h.commitFieldIndexingData x.id x.keys) (newACEntriesHolder sep)

variable {sep : GoString} {xs : List KeywordExpr} {content : List Rune} {key : GoString} {e : EntryID}

theorem commit_mem (h : ACEntriesHolder) (eid : EntryID) (keys : List GoString) :
    key ∈ (h.commitFieldIndexingData eid keys).values ↔ key ∈ h.values ∨ key ∈ keys := by
  obtain ⟨sep, values, machine⟩ := h
  induction keys generalizing values with
  | nil => simp [commitFieldIndexingData]
  | cons v keys ih =>
    refine (ih (values.insert v ((values.lookup v).getD [] ++ [eid]))).trans ?_
    rw [AList.mem_insert, List.mem_cons]
    tauto

theorem committed_mem : key ∈ (committed sep xs).values ↔ ∃ x ∈ xs, key ∈ x.keys := by
  induction xs using List.reverseRecOn with
  | nil => simp [committed, newACEntriesHolder]
  | append_singleton xs x ih =>
    rw [committed, List.foldl_append, List.foldl_cons, List.foldl_nil, commit_mem]
    refine (or_congr_left ih).trans ?_
    simp [or_and_right, exists_or]

theorem committed_lookup : e ∈ ((committed sep xs).values.lookup key).getD [] ↔ Has xs key e := by
  induction xs using List.reverseRecOn with
  | nil => simp [committed, newACEntriesHolder, Has]
  | append_singleton xs x ih =>
    rw [committed, List.foldl_append, List.foldl_cons, List.foldl_nil, commit_lookup, List.mem_append]
    refine (or_congr_left ih).trans ?_
    simp only [Has, List.mem_append, List.mem_singleton, List.mem_replicate, or_and_right, exists_or, exists_eq_left]
    refine or_congr_right ?_
    rw [ne_eq, List.count_eq_zero, not_not, and_comm, eq_comm]

theorem committed_querySep : (committed sep xs).querySep = sep := by
  induction xs using List.reverseRecOn with
  | nil => rfl
  | append_singleton xs x ih =>
    rw [committed, List.foldl_append]
    exact ih

theorem lookup_sortValues (values : GoMap GoString Entries) (key : GoString) :
    (sortValues values).lookup key = (values.lookup key).map sortEntries :=
  List.dlookup_map₂ (f := fun _ => sortEntries) key

variable [AhoMachine] [AhoMachine.Documented]

omit [AhoMachine.Documented] in
theorem getEntries_eq {h : ACEntriesHolder} {v : Value} (keyed : h.values.entries ≠ [])
    (built : buildAcMatchContent v h.querySep = .ok content) (something : content ≠ []) :
    h.getEntries v = .ok ((AhoMachine.multiPatternSearch h.machine content).filterMap fun word =>
      match h.values.lookup (stringOfRunes word) with
      | some (eid :: pl) => some (newEntriesCursor (eid :: pl))
      | _ => none) := by
  unfold getEntries
  rw [if_neg (by simpa using keyed), built]
  change (if content.isEmpty = true then _ else _) = _
  rw [if_neg (by simpa using something)]
  rfl

omit [AhoMachine] [AhoMachine.Documented] in
theorem committed_nonempty : ∀ key ∈ (committed sep xs).values, key ≠ [] := by
  intro key mem
  obtain ⟨x, _, inKeys⟩ := committed_mem.mp mem
  exact x.nonempty key inKeys

theorem compileEntries_eq (some_key : (committed sep xs).values.entries ≠ []) :
    (committed sep xs).compileEntries = .ok { committed sep xs with
      values := sortValues (committed sep xs).values, machine := wordsOf (committed sep xs).values } := by
  unfold compileEntries
  rw [if_neg (by simpa using some_key)]
  change (AhoMachine.build (wordsOf _)).mapError Fault.err >>= _ = _
  rw [build_wordsOf committed_nonempty some_key]
  rfl

omit [AhoMachine] [AhoMachine.Documented] in
theorem mem_cursor {word : List Rune} :
    (∃ c ∈ (match (sortValues (committed sep xs).values).lookup (stringOfRunes word) with
      | some (eid :: pl) => some (newEntriesCursor (eid :: pl))
      | _ => none), e ∈ c.entries) ↔ Has xs (stringOfRunes word) e := by
  rw [← @committed_lookup sep, lookup_sortValues]
  cases (committed sep xs).values.lookup (stringOfRunes word) with
  | none => simp
  | some pl =>
    rw [Option.map_some, Option.getD_some, ← mem_sortEntries]
    cases sortEntries pl with
    | nil => simp
    | cons eid es => simp [newEntriesCursor, EntriesCursor.moveTo]

theorem getEntries_finds (xs : List KeywordExpr) {v : Value} (built : buildAcMatchContent v sep = .ok content) :
    ∃ h cs, (committed sep xs).compileEntries = .ok h ∧ h.getEntries v = .ok cs ∧
      ∀ e, e ∈ cs.ids ↔ FoundValid xs content e := by
  have keyed : ∀ {key e}, Has xs key e → key ∈ (committed sep xs).values := by
    intro key e has
    obtain ⟨x, mem, _, inKeys⟩ := has
    exact committed_mem.mpr ⟨x, mem, inKeys⟩
  by_cases noKeys : (committed sep xs).values.entries = []
  · refine ⟨committed sep xs, [], ?_, ?_, fun e => iff_of_false (by simp [EntriesCursors.ids]) ?_⟩
    · simp [compileEntries, noKeys]
    · unfold getEntries
      rw [noKeys]
      rfl
    · intro found
      obtain ⟨key, has, _⟩ := found
      have mem := keyed has
      simp [AList.mem_keys, AList.keys, noKeys] at mem
  have compiled := compileEntries_eq noKeys
  have sep_eq : (committed sep xs).querySep = sep := committed_querySep
  have sorted : (sortValues (committed sep xs).values).entries ≠ [] := by simpa [sortValues] using noKeys
  by_cases noContent : content = []
  · subst noContent
    refine ⟨_, [], compiled, ?_, fun e => iff_of_false (by simp [EntriesCursors.ids])
      fun found => not_found_nil found.found⟩
    unfold getEntries
    rw [if_neg (by simpa using sorted), sep_eq, built]
    rfl
  · refine ⟨_, _, compiled, getEntries_eq sorted (by rw [sep_eq]; exact built) noContent, fun e => ?_⟩
    rw [FoundValid, ← exists_found_iff (fun w => mem_search committed_nonempty) (P := fun key => Has xs key e)
      fun key => keyed]
    simp only [EntriesCursors.ids, Set.mem_ofPred_eq, List.mem_filterMap, ← @mem_cursor sep]
    constructor
    · intro listed
      obtain ⟨c, ⟨word, found, made⟩, mem⟩ := listed
      exact ⟨word, found, c, made, mem⟩
    · intro matched
      obtain ⟨word, found, c, made, mem⟩ := matched
      exact ⟨c, ⟨word, found, made⟩, mem⟩

end ACEntriesHolder

end BeIndexer
