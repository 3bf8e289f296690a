import BeIndexer.Holder.KeywordSearch
import BeIndexer.Roaring.Encode

/-!
# Keywords in both indexes (`ahocorasick_holder.go`, `be_container_ac.go`)

Both keyword containers turn their keywords into runes, search a content for them, and use the string
of what was found as the key of a map. They find a keyword again when that string is the keyword.
-/

namespace BeIndexer.Roaring

open KeywordExpr

/-! ### The bitmaps of the keywords -/

namespace Postings

/-- The bitmaps of the included, or of the excluded values. -/
def side {κ : Type} (p : Postings κ) (incl : Bool) : GoMap κ PostingList := if incl then p.inc else p.exc

variable {κ : Type} [DecidableEq κ] {p : Postings κ} {key : κ}

theorem bitmap_of (incl : Bool) : p.bitmap (Slot.of incl key) = ((p.side incl).lookup key).getD ∅ := by
  cases incl <;> rfl

theorem mem_side_addValues {incl incl' : Bool} {values : List κ} {id : ConjunctionID} :
    key ∈ (p.addValues incl values id).side incl' ↔ key ∈ p.side incl' ∨ (incl' = incl ∧ key ∈ values) := by
  induction values generalizing p with
  | nil => simp [addValues]
  | cons value values ih =>
    refine ih.trans ?_
    rw [List.mem_cons]
    cases incl <;> cases incl' <;> simp [side, addInclude, addExclude, addTo, AList.mem_insert] <;> tauto

end Postings

namespace ACBEContainer

def boolValues (x : KeywordExpr) : BoolValues := ⟨x.incl, .strings (some x.keys), .eq⟩

/-- A container in which some expressions were encoded. -/
def encoded (sep : GoString) (wc : PostingList) (xs : List KeywordExpr) : Go ACBEContainer :=
  xs.foldlM (fun c x => c.encodeExpr x.id (boolValues x)) ⟨sep, ⟨wc, ∅, ∅⟩, none, none⟩

/-- The expressions that include, or that exclude. -/
def sideOf (incl : Bool) (xs : List KeywordExpr) : List KeywordExpr := xs.filter fun x => x.incl == incl

theorem encodeExpr_boolValues (c : ACBEContainer) (x : KeywordExpr) :
    c.encodeExpr x.id (boolValues x) = .ok { c with postings := c.postings.addValues x.incl x.keys x.id } := rfl

variable {sep : GoString} {wc : PostingList} {xs : List KeywordExpr}

theorem has_sideOf {incl : Bool} {key : GoString} {id : ConjunctionID} :
    Has (sideOf incl xs) key id ↔ ∃ x ∈ xs, x.incl = incl ∧ x.id = id ∧ key ∈ x.keys := by
  simp [Has, sideOf, and_assoc]

theorem encoded_ok (sep : GoString) (wc : PostingList) (xs : List KeywordExpr) :
    ∃ c, encoded sep wc xs = .ok c ∧ c.querySep = sep ∧ c.postings.wc = wc ∧
      (∀ incl key, key ∈ c.postings.side incl ↔ ∃ x ∈ xs, x.incl = incl ∧ key ∈ x.keys) ∧
      ∀ incl key id, id ∈ ((c.postings.side incl).lookup key).getD ∅ ↔ Has (sideOf incl xs) key id := by
  induction xs using List.reverseRecOn with
  | nil =>
    refine ⟨_, rfl, rfl, rfl, fun incl key => ?_, fun incl key id => ?_⟩
    · cases incl <;> simp [Postings.side]
    · cases incl <;> simp [Postings.side, has_sideOf]
  | append_singleton xs x ih =>
    obtain ⟨c, run, hsep, hwc, keys, ids⟩ := ih
    refine ⟨{ c with postings := c.postings.addValues x.incl x.keys x.id }, ?_, hsep, ?_, fun incl key => ?_,
      fun incl key id => ?_⟩
    · rw [encoded, List.foldlM_append]
      exact bind_eq_ok.mpr ⟨c, run, bind_eq_ok.mpr ⟨_, encodeExpr_boolValues c x, rfl⟩⟩
    · rw [← hwc]
      ext id
      have same : id ∈ (c.postings.addValues x.incl x.keys x.id).bitmap .wildcard ↔ _ := Postings.mem_addValues
      simpa [Postings.bitmap, Slot.of_ne_wildcard] using same
    · rw [Postings.mem_side_addValues, keys]
      simp [or_and_right, exists_or, eq_comm]
    · rw [← Postings.bitmap_of, Postings.mem_addValues, Postings.bitmap_of, ids, has_sideOf, has_sideOf]
      simp only [List.mem_append, List.mem_singleton, or_and_right, exists_or, exists_eq_left,
        List.mem_map, Slot.of_inj, exists_eq_right_right]
      refine or_congr_right ?_
      rw [eq_comm (a := id), and_comm (a := key ∈ x.keys), and_left_comm]

/-! ### The bitmaps of what was found -/

/-- The loops of `Retrieve` look every word up first and combine the bitmaps afterwards. -/
theorem foldlM_wordList (op : PostingList → PostingList → PostingList) (m : GoMap GoString PostingList)
    (words : List (List Rune)) (start : PostingList) :
    words.foldlM (fun inout word => do
        let pl ← wordList m word
        return op inout pl) start = (words.mapM (wordList m)).map fun pls => pls.foldl op start := by
  induction words generalizing start with
  | nil => rfl
  | cons word words ih =>
    rw [List.foldlM_cons, List.mapM_cons]
    cases wordList m word with
    | error fault => rfl
    | ok pl =>
      refine (ih (op start pl)).trans ?_
      change _ = (words.mapM (wordList m) >>= fun pls => .ok (pl :: pls)).map _
      cases words.mapM (wordList m) <;> rfl

theorem wordList_ok {m : GoMap GoString PostingList} {word : List Rune} {pl : PostingList} :
    wordList m word = .ok pl ↔ m.lookup (stringOfRunes word) = some pl := by
  unfold wordList
  split <;> simp_all [panicf]

theorem wordList_runs {m : GoMap GoString PostingList} {word : List Rune} :
    (∃ pl, wordList m word = .ok pl) ↔ stringOfRunes word ∈ m := by
  simp only [wordList_ok, ← Option.isSome_iff_exists, AList.lookup_isSome]

theorem mem_wordLists {m : GoMap GoString PostingList} {words : List (List Rune)} {pls : List PostingList}
    (run : words.mapM (wordList m) = .ok pls) {id : ConjunctionID} :
    (∃ pl ∈ pls, id ∈ pl) ↔ ∃ w ∈ words, id ∈ (m.lookup (stringOfRunes w)).getD ∅ := by
  constructor
  · intro ⟨pl, mem, inList⟩
    obtain ⟨w, inWords, read⟩ := mem_mapM run mem
    exact ⟨w, inWords, by rwa [wordList_ok.mp read]⟩
  · intro ⟨w, inWords, inList⟩
    obtain ⟨pl, mem, read⟩ := mapM_mem run inWords
    exact ⟨pl, mem, by rwa [wordList_ok.mp read] at inList⟩

theorem mem_foldl_union {pls : List PostingList} {start : PostingList} {id : ConjunctionID} :
    id ∈ pls.foldl (· ∪ ·) start ↔ id ∈ start ∨ ∃ pl ∈ pls, id ∈ pl := by
  induction pls generalizing start with
  | nil => simp
  | cons pl pls ih => rw [List.foldl_cons, ih, Finset.mem_union, List.exists_mem_cons_iff, or_assoc]

theorem mem_foldl_diff {pls : List PostingList} {start : PostingList} {id : ConjunctionID} :
    id ∈ pls.foldl (· \ ·) start ↔ id ∈ start ∧ ¬ ∃ pl ∈ pls, id ∈ pl := by
  induction pls generalizing start with
  | nil => simp
  | cons pl pls ih => rw [List.foldl_cons, ih, Finset.mem_sdiff, List.exists_mem_cons_iff, not_or, and_assoc]

section Search

variable [AhoMachine]

def foundBy (machine : Option (List (List Rune))) (content : List Rune) : List (List Rune) :=
  match machine with
  | none => []
  | some words => AhoMachine.multiPatternSearch words content

omit [AhoMachine] in
theorem content_of_nil {v : Value} {sep : GoString} {content : List Rune}
    (built : buildAcMatchContent v sep = .ok content) :
    nilInterface v = .ok false ∨ nilInterface v = .ok true ∧ content = [] := by
  cases v with
  | scalar s =>
    cases s with
    | string s => exact Or.inl rfl
    | _ => cases built
  | strings ss =>
    cases ss with
    | none => exact Or.inr ⟨rfl, (Except.ok.inj built).symm⟩
    | some ss => exact Or.inl rfl
  | ifaces vs =>
    cases vs with
    | none => exact Or.inr ⟨rfl, (Except.ok.inj built).symm⟩
    | some vs => exact Or.inl rfl
  | _ => cases built

theorem retrieve_nil {c : ACBEContainer} {v : Value} {inout : PostingList} (isNil : nilInterface v = .ok true) :
    c.retrieve v inout = .ok (inout ∪ c.postings.wc) := by
  unfold retrieve
  rw [isNil]
  rfl

theorem retrieve_search {c : ACBEContainer} {v : Value} {content : List Rune} {inout : PostingList}
    (notNil : nilInterface v = .ok false) (built : buildAcMatchContent v c.querySep = .ok content) :
    c.retrieve v inout = do
      let ins ← (foundBy c.inc content).mapM (wordList c.postings.inc)
      let outs ← (foundBy c.exc content).mapM (wordList c.postings.exc)
      return outs.foldl (· \ ·) (ins.foldl (· ∪ ·) (inout ∪ c.postings.wc)) := by
  have unions := foldlM_wordList (· ∪ ·) c.postings.inc
  have diffs := foldlM_wordList (· \ ·) c.postings.exc
  unfold retrieve
  rw [notNil, built]
  cases c.inc with
  | none =>
    cases c.exc with
    | none => rfl
    | some machine => exact diffs _ _
  | some machine =>
    simp only [unions]
    change ((List.mapM (wordList c.postings.inc) (AhoMachine.multiPatternSearch machine content)).map _ >>=
      fun inout => _) = _
    simp only [foundBy]
    cases (AhoMachine.multiPatternSearch machine content).mapM (wordList c.postings.inc) with
    | error fault => rfl
    | ok ins =>
      cases c.exc with
      | none => rfl
      | some machine' => exact diffs _ _

def machine (c : ACBEContainer) (incl : Bool) : Option (List (List Rune)) := if incl then c.inc else c.exc

/-- The container that is built from some expressions. -/
structure Built (sep : GoString) (wc : PostingList) (xs : List KeywordExpr) (c : ACBEContainer) : Prop where
  sep_eq : c.querySep = sep
  wc_eq : c.postings.wc = wc
  keys : ∀ incl key, key ∈ c.postings.side incl ↔ ∃ x ∈ xs, x.incl = incl ∧ key ∈ x.keys
  ids : ∀ incl key id, id ∈ ((c.postings.side incl).lookup key).getD ∅ ↔ Has (sideOf incl xs) key id
  finds : ∀ content incl w, w ∈ foundBy (c.machine incl) content ↔
    ∃ key ∈ c.postings.side incl, runes key = w ∧ runes key <:+: content

theorem buildMachine_ok [AhoMachine.Documented] {m : GoMap GoString PostingList} (nonempty : ∀ key ∈ m, key ≠ []) :
    ∃ machine, buildMachine m = .ok machine ∧
      ∀ content w, w ∈ foundBy machine content ↔ ∃ key ∈ m, runes key = w ∧ runes key <:+: content := by
  by_cases noKeys : m.entries = []
  · refine ⟨none, by simp [buildMachine, noKeys], fun content w => ?_⟩
    simp [foundBy, AList.mem_keys, AList.keys, noKeys]
  · refine ⟨some (wordsOf m), ?_, fun content w => mem_search nonempty⟩
    unfold buildMachine
    rw [if_neg (by simpa using noKeys)]
    change (AhoMachine.build (wordsOf m)).mapError Fault.err >>= _ = _
    rw [build_wordsOf nonempty noKeys]
    rfl

theorem build_encoded [AhoMachine.Documented] (sep : GoString) (wc : PostingList) (xs : List KeywordExpr) :
    ∃ c c', encoded sep wc xs = .ok c ∧ c.build = .ok c' ∧ c'.Built sep wc xs := by
  obtain ⟨c, run, hsep, hwc, keys, ids⟩ := encoded_ok sep wc xs
  have nonempty : ∀ incl, ∀ key ∈ c.postings.side incl, key ≠ [] := by
    intro incl key mem
    obtain ⟨x, _, _, inKeys⟩ := (keys incl key).mp mem
    exact x.nonempty key inKeys
  obtain ⟨inc, builtInc, findsInc⟩ := buildMachine_ok (nonempty true)
  obtain ⟨exc, builtExc, findsExc⟩ := buildMachine_ok (nonempty false)
  refine ⟨c, { c with inc := inc, exc := exc }, run, ?_, hsep, hwc, keys, ids, fun content incl w => ?_⟩
  · exact bind_eq_ok.mpr ⟨inc, builtInc, bind_eq_ok.mpr ⟨exc, builtExc, rfl⟩⟩
  · cases incl with
    | true => exact findsInc content w
    | false => exact findsExc content w

namespace Built

variable {c : ACBEContainer} {v : Value} {content : List Rune} {inout out : PostingList}

theorem retrieve_ok (is : c.Built sep wc xs) (built : buildAcMatchContent v sep = .ok content) :
    c.retrieve v inout = .ok out ↔ ∃ ins outs, (foundBy c.inc content).mapM (wordList c.postings.inc) = .ok ins ∧
      (foundBy c.exc content).mapM (wordList c.postings.exc) = .ok outs ∧
      outs.foldl (· \ ·) (ins.foldl (· ∪ ·) (inout ∪ wc)) = out := by
  have nothing : ∀ incl, foundBy (c.machine incl) [] = [] := by
    intro incl
    refine List.eq_nil_iff_forall_not_mem.mpr fun w found => ?_
    obtain ⟨key, mem, _, occurs⟩ := (is.finds [] incl w).mp found
    obtain ⟨x, _, _, inKeys⟩ := (is.keys incl key).mp mem
    exact x.nonempty key inKeys (runes_eq_nil.mp (List.infix_nil.mp occurs))
  rw [← is.sep_eq] at built
  have search : c.retrieve v inout = do
      let ins ← (foundBy c.inc content).mapM (wordList c.postings.inc)
      let outs ← (foundBy c.exc content).mapM (wordList c.postings.exc)
      return outs.foldl (· \ ·) (ins.foldl (· ∪ ·) (inout ∪ c.postings.wc)) := by
    rcases content_of_nil built with notNil | ⟨isNil, rfl⟩
    · exact retrieve_search notNil built
    · rw [retrieve_nil isNil, show foundBy c.inc [] = [] from nothing true,
        show foundBy c.exc [] = [] from nothing false]
      rfl
  rw [search, bind_eq_ok, is.wc_eq]
  refine exists_congr fun ins => ?_
  rw [bind_eq_ok]
  constructor
  · intro ⟨found, outs, removed, done⟩
    exact ⟨outs, found, removed, Except.ok.inj done⟩
  · intro ⟨outs, found, removed, done⟩
    exact ⟨found, outs, removed, congrArg Except.ok done⟩

/-- `Retrieve` panics where the string of a word that was found is no keyword. -/
theorem retrieve_runs (is : c.Built sep wc xs) (built : buildAcMatchContent v sep = .ok content) :
    (∃ out, c.retrieve v inout = .ok out) ↔ ∀ x ∈ xs, ∀ key ∈ x.keys, runes key <:+: content →
      ∃ y ∈ xs, y.incl = x.incl ∧ stringOfRunes (runes key) ∈ y.keys := by
  constructor
  · intro ⟨out, run⟩ x mem key inKeys occurs
    obtain ⟨ins, outs, hins, houts, _⟩ := (is.retrieve_ok built).mp run
    have keyed := (is.keys x.incl key).mpr ⟨x, mem, rfl, inKeys⟩
    have found := (is.finds content x.incl (runes key)).mpr ⟨key, keyed, rfl, occurs⟩
    rw [← is.keys]
    cases side : x.incl with
    | true =>
      rw [side] at found
      obtain ⟨pl, _, read⟩ := mapM_mem hins found
      exact wordList_runs.mp ⟨pl, read⟩
    | false =>
      rw [side] at found
      obtain ⟨pl, _, read⟩ := mapM_mem houts found
      exact wordList_runs.mp ⟨pl, read⟩
  · intro back
    have each : ∀ incl, ∀ w ∈ foundBy (c.machine incl) content, ∃ pl, wordList (c.postings.side incl) w = .ok pl := by
      intro incl w found
      obtain ⟨key, keyed, rfl, occurs⟩ := (is.finds content incl w).mp found
      obtain ⟨x, mem, rfl, inKeys⟩ := (is.keys incl key).mp keyed
      exact wordList_runs.mpr ((is.keys _ _).mpr (back x mem key inKeys occurs))
    obtain ⟨ins, hins⟩ := mapM_runs (each true)
    obtain ⟨outs, houts⟩ := mapM_runs (each false)
    exact ⟨_, (is.retrieve_ok built).mpr ⟨ins, outs, hins, houts, rfl⟩⟩

theorem mem_found (is : c.Built sep wc xs) (content : List Rune) (incl : Bool) (id : ConjunctionID) :
    (∃ w ∈ foundBy (c.machine incl) content, id ∈ ((c.postings.side incl).lookup (stringOfRunes w)).getD ∅) ↔
      FoundValid (sideOf incl xs) content id := by
  simp only [is.ids]
  refine exists_found_iff (P := fun key => Has (sideOf incl xs) key id) (is.finds content incl) fun key has => ?_
  obtain ⟨x, mem, same, _, inKeys⟩ := has_sideOf.mp has
  exact (is.keys incl key).mpr ⟨x, mem, same, inKeys⟩

theorem mem_retrieve (is : c.Built sep wc xs) (built : buildAcMatchContent v sep = .ok content)
    (run : c.retrieve v inout = .ok out) (id : ConjunctionID) :
    id ∈ out ↔ (id ∈ inout ∨ id ∈ wc ∨ FoundValid (sideOf true xs) content id) ∧
      ¬ FoundValid (sideOf false xs) content id := by
  obtain ⟨ins, outs, hins, houts, rfl⟩ := (is.retrieve_ok built).mp run
  rw [mem_foldl_diff, mem_foldl_union, mem_wordLists hins, mem_wordLists houts, Finset.mem_union, or_assoc]
  have added := is.mem_found content true id
  have removed := is.mem_found content false id
  exact and_congr (or_congr_right (or_congr_right added)) (not_congr removed)

/-- A keyword that is not valid UTF-8 may occur only where it makes no difference. -/
theorem retrieve_finds_iff (is : c.Built sep wc xs) (built : buildAcMatchContent v sep = .ok content) :
    (∀ inout, ∃ out, c.retrieve v inout = .ok out ∧
      ∀ id, id ∈ out ↔ (id ∈ inout ∨ id ∈ wc ∨ Found (sideOf true xs) content id) ∧
        ¬ Found (sideOf false xs) content id) ↔
    (∀ x ∈ xs, ∀ key ∈ x.keys, runes key <:+: content → ∃ y ∈ xs, y.incl = x.incl ∧
      stringOfRunes (runes key) ∈ y.keys) ∧
    (∀ id, Found (sideOf false xs) content id → FoundValid (sideOf false xs) content id) ∧
    (∀ id, Found (sideOf true xs) content id →
      FoundValid (sideOf true xs) content id ∨ id ∈ wc ∨ Found (sideOf false xs) content id) := by
  constructor
  · intro retrieves
    obtain ⟨out, run, _⟩ := retrieves ∅
    refine ⟨(is.retrieve_runs built).mp ⟨out, run⟩, fun id found => ?_, fun id found => ?_⟩
    · obtain ⟨out, run, mem⟩ := retrieves {id}
      have same := (is.mem_retrieve built run id).symm.trans (mem id)
      simpa [found] using same
    · by_cases out : Found (sideOf false xs) content id
      · exact Or.inr (Or.inr out)
      · obtain ⟨res, run, mem⟩ := retrieves ∅
        have kept := (is.mem_retrieve built run id).mp ((mem id).mpr ⟨Or.inr (Or.inr found), out⟩)
        rcases kept.1 with inside | inWc | valid
        · exact absurd inside (Finset.notMem_empty id)
        · exact Or.inr (Or.inl inWc)
        · exact Or.inl valid
  · intro ⟨back, excluded, included⟩ inout
    obtain ⟨out, run⟩ := (is.retrieve_runs built).mpr back
    have same : ∀ id, FoundValid (sideOf false xs) content id ↔ Found (sideOf false xs) content id :=
      fun id => ⟨FoundValid.found, excluded id⟩
    refine ⟨out, run, fun id => ?_⟩
    rw [is.mem_retrieve built run id, same]
    refine and_congr_left fun kept => or_congr_right ⟨fun held => held.imp_right FoundValid.found, fun held => ?_⟩
    rcases held with inWc | found
    · exact Or.inl inWc
    · rcases included id found with valid | inWc | removed
      · exact Or.inr valid
      · exact Or.inl inWc
      · exact absurd removed kept

end Built

end Search

end ACBEContainer

/-! ### Both containers -/

section Both

variable [AhoMachine]

/-- `GetEntries` covers the ids with a keyword that occurs. -/
def HolderFinds (sep : GoString) (xs : List KeywordExpr) (v : Value) (content : List Rune) : Prop :=
  ∃ h cs, (ACEntriesHolder.committed sep xs).compileEntries = .ok h ∧ h.getEntries v = .ok cs ∧
    ∀ id, id ∈ cs.ids ↔ Found xs content id

/-- `Retrieve` adds the ids with an included keyword that occurs, and removes those with an excluded one. -/
def ContainerFinds (sep : GoString) (wc : PostingList) (xs : List KeywordExpr) (v : Value) (content : List Rune) :
    Prop :=
  ∃ c c', ACBEContainer.encoded sep wc xs = .ok c ∧ c.build = .ok c' ∧ ∀ inout, ∃ out, c'.retrieve v inout = .ok out ∧
    ∀ id, id ∈ out ↔ (id ∈ inout ∨ id ∈ wc ∨ Found (ACBEContainer.sideOf true xs) content id) ∧
      ¬ Found (ACBEContainer.sideOf false xs) content id

/-- A keyword of the id occurs only if one does that is valid UTF-8. -/
def Spelled (xs : List KeywordExpr) (content : List Rune) : Prop := ∀ id, Found xs content id → FoundValid xs content id

/-- The string that the runes of a keyword make is a keyword of the same side, if it occurs. -/
def SpelledBack (xs : List KeywordExpr) (content : List Rune) : Prop :=
  ∀ x ∈ xs, ∀ key ∈ x.keys, runes key <:+: content → ∃ y ∈ xs, y.incl = x.incl ∧ stringOfRunes (runes key) ∈ y.keys

theorem holderFinds_iff [AhoMachine.Documented] {sep : GoString} {xs : List KeywordExpr} {v : Value}
    {content : List Rune}
    (built : buildAcMatchContent v sep = .ok content) : HolderFinds sep xs v content ↔ Spelled xs content := by
  obtain ⟨h, cs, compiled, got, finds⟩ := ACEntriesHolder.getEntries_finds xs built
  constructor
  · intro ⟨h', cs', compiled', got', finds'⟩ id found
    obtain rfl := Except.ok.inj (compiled.symm.trans compiled')
    obtain rfl := Except.ok.inj (got.symm.trans got')
    exact (finds id).mp ((finds' id).mpr found)
  · intro spelled
    exact ⟨h, cs, compiled, got, fun id => (finds id).trans ⟨FoundValid.found, spelled id⟩⟩

omit [AhoMachine] in
theorem spelled_of_valid {xs : List KeywordExpr} {content : List Rune}
    (valid : ∀ x ∈ xs, ∀ key ∈ x.keys, ValidUtf8 key) : Spelled xs content := by
  intro id ⟨key, ⟨x, mem, same, inKeys⟩, occurs⟩
  exact ⟨key, ⟨x, mem, same, inKeys⟩, valid x mem key inKeys, occurs⟩

omit [AhoMachine] in
theorem spelledBack_of_valid {xs : List KeywordExpr} {content : List Rune}
    (valid : ∀ x ∈ xs, ∀ key ∈ x.keys, ValidUtf8 key) : SpelledBack xs content := by
  intro x mem key inKeys _
  refine ⟨x, mem, rfl, ?_⟩
  rwa [validUtf8_iff.mp (valid x mem key inKeys)]

/-- The holder of the one index finds its keywords exactly if every id of a keyword that occurs has one
that occurs and is valid UTF-8. The container of the other needs this for the excluded ids, and for the
included ones that are not in the result for another reason. It panics unless the string of the runes of
a keyword that occurs is a keyword as well. -/
theorem keywords_found_iff [AhoMachine.Documented] (wc : PostingList) (xs : List KeywordExpr)
    {sep : GoString} {v : Value} {content : List Rune} (built : buildAcMatchContent v sep = .ok content) :
    (HolderFinds sep xs v content ↔ Spelled xs content) ∧
    (ContainerFinds sep wc xs v content ↔ SpelledBack xs content ∧ Spelled (ACBEContainer.sideOf false xs) content ∧
      ∀ id, Found (ACBEContainer.sideOf true xs) content id → FoundValid (ACBEContainer.sideOf true xs) content id ∨
        id ∈ wc ∨ Found (ACBEContainer.sideOf false xs) content id) := by
  refine ⟨holderFinds_iff built, ?_⟩
  obtain ⟨c, c', run, made, is⟩ := ACBEContainer.build_encoded sep wc xs
  refine Iff.trans ?_ (is.retrieve_finds_iff built)
  constructor
  · intro ⟨d, d', run', made', retrieves⟩
    obtain rfl := Except.ok.inj (run.symm.trans run')
    obtain rfl := Except.ok.inj (made.symm.trans made')
    exact retrieves
  · intro retrieves
    exact ⟨c, c', run, made, retrieves⟩

end Both

/-- Two keywords, of which one excludes. -/
theorem keywords_found_two :
    let _ := AhoMachine.naive
    let xs : List KeywordExpr := [⟨1, true, [str "ab"], by decide⟩, ⟨2, false, [str "é"], by decide⟩]
    let v : Value := .scalar (.string (str "abé"))
    HolderFinds (str "\n") xs v (runes (str "abé")) ∧ ContainerFinds (str "\n") ∅ xs v (runes (str "abé")) := by
  intro _ xs v
  have : AhoMachine.Documented := AhoMachine.naive_documented
  have valid : ∀ x ∈ xs, ∀ key ∈ x.keys, ValidUtf8 key := by decide
  have side : ∀ incl, ∀ x ∈ ACBEContainer.sideOf incl xs, ∀ key ∈ x.keys, ValidUtf8 key :=
    fun incl x mem => valid x (List.mem_of_mem_filter mem)
  obtain ⟨holder, container⟩ := keywords_found_iff ∅ xs (show buildAcMatchContent v (str "\n") = .ok _ from rfl)
  refine ⟨holder.mpr (spelled_of_valid valid), container.mpr ⟨spelledBack_of_valid valid, ?_, fun id found => ?_⟩⟩
  · exact spelled_of_valid (side false)
  · exact Or.inl (spelled_of_valid (side true) id found)

/-- A keyword that is the byte 0xFF occurs in itself. The holder does not cover its id, and the
container panics. -/
theorem keywords_lose_byte :
    let _ := AhoMachine.naive
    let xs : List KeywordExpr := [⟨1, true, [[0xFF]], by decide⟩]
    let v : Value := .scalar (.string [0xFF])
    Found xs (runes [0xFF]) 1 ∧ ¬ HolderFinds (str "\n") xs v (runes [0xFF]) ∧
      ¬ ContainerFinds (str "\n") ∅ xs v (runes [0xFF]) ∧
      ∃ c c' e, ACBEContainer.encoded (str "\n") ∅ xs = .ok c ∧ c.build = .ok c' ∧
        c'.retrieve v ∅ = .error (.panic e) := by
  intro _ xs v
  have : AhoMachine.Documented := AhoMachine.naive_documented
  have found : Found xs (runes [0xFF]) 1 :=
    ⟨[0xFF], ⟨_, List.mem_singleton_self _, rfl, List.mem_singleton_self _⟩, List.infix_rfl⟩
  obtain ⟨c, c', e, run, made, panics⟩ : ∃ c c' e, ACBEContainer.encoded (str "\n") ∅ xs = .ok c ∧ c.build = .ok c' ∧
      c'.retrieve v ∅ = .error (.panic e) := ⟨_, _, _, rfl, rfl, rfl⟩
  refine ⟨found, fun finds => ?_, fun ⟨d, d', run', made', finds⟩ => ?_, c, c', e, run, made, panics⟩
  · obtain ⟨key, ⟨x, mem, _, inKeys⟩, valid, _⟩ := (holderFinds_iff rfl).mp finds 1 found
    obtain rfl := List.mem_singleton.mp mem
    obtain rfl := List.mem_singleton.mp inKeys
    revert valid
    decide
  · obtain rfl := Except.ok.inj (run.symm.trans run')
    obtain rfl := Except.ok.inj (made.symm.trans made')
    obtain ⟨out, got, _⟩ := finds ∅
    cases panics.symm.trans got

end BeIndexer.Roaring
