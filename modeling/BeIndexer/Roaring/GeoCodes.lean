import BeIndexer.Lib.Words
import BeIndexer.Roaring.Parsers

/-!
# Places as strings and as numbers (`geohash_parser.go`)

`GeoHashParser` serves the default container with code strings (`TokenizeValue`, `TokenizeAssign`) and
the roaring index with the numbers they denote (`ParseValue`, `ParseAssign`).
-/

namespace BeIndexer

namespace GeoHashParser

/-- The letters of a code, `0` first. -/
def alphabet : GoString := str "0123456789bcdefghjkmnpqrstuvwxyz"

def IsCode (code : GoString) : Prop := ∀ c ∈ code, c ∈ alphabet

instance : DecidablePred IsCode := fun code => inferInstanceAs (Decidable (∀ c ∈ code, c ∈ alphabet))

def digit (c : UInt8) : Nat := alphabet.idxOf c

/-- The code as a base-32 number, five bits a letter. -/
def base32 (code : GoString) : Nat := Word.value 32 (code.map digit)

theorem digit_lt {code : GoString} (isCode : IsCode code) : ∀ d ∈ code.map digit, d < 32 := by
  intro d mem
  obtain ⟨c, inCode, rfl⟩ := List.mem_map.mp mem
  exact List.idxOf_lt_length_of_mem (isCode c inCode)

theorem digits_inj {c d : GoString} (hc : IsCode c) (hd : IsCode d) (same : c.map digit = d.map digit) : c = d := by
  have back : ∀ code, IsCode code → (code.map digit).map (fun n => alphabet.getD n 0) = code := by
    intro code isCode
    rw [List.map_map]
    refine (List.map_congr_left fun c mem => ?_).trans (List.map_id code)
    have lt := List.idxOf_lt_length_of_mem (isCode c mem)
    simp [digit, List.getD, List.getElem?_eq_getElem lt, List.getElem_idxOf lt]
  rw [← back c hc, same, back d hd]

/-- `d` is `c` with zeros before it. -/
def Padded (c d : GoString) : Prop := ∃ k, d = List.replicate k 48 ++ c

theorem isCode_replicate {c : GoString} (k : Nat) (hc : IsCode c) : IsCode (List.replicate k 48 ++ c) := by
  intro x mem
  rcases List.mem_append.mp mem with zero | mem
  · rw [List.eq_of_mem_replicate zero]
    decide
  · exact hc x mem

theorem base32_eq_iff {c d : GoString} (hc : IsCode c) (hd : IsCode d) :
    base32 c = base32 d ↔ Padded c d ∨ Padded d c := by
  have zeros : ∀ k (x : GoString), (List.replicate k 48 ++ x).map digit = List.replicate k 0 ++ x.map digit := by
    intro k x
    rw [List.map_append, List.map_replicate]
    rfl
  rw [base32, base32, Word.value_eq_iff (by decide) (digit_lt hc) (digit_lt hd)]
  constructor
  · intro ⟨k, padded⟩
    rcases padded with padded | padded
    · exact Or.inr ⟨k, digits_inj hc (isCode_replicate k hd) (padded.trans (zeros k d).symm)⟩
    · exact Or.inl ⟨k, digits_inj hd (isCode_replicate k hc) (padded.trans (zeros k c).symm)⟩
  · intro padded
    rcases padded with ⟨k, rfl⟩ | ⟨k, rfl⟩
    · exact ⟨k, Or.inr (zeros k c)⟩
    · exact ⟨k, Or.inl (zeros k d)⟩

theorem base32_lt {code : GoString} (isCode : IsCode code) (short : code.length ≤ 12) : base32 code < 2 ^ 64 := by
  have bound := Word.value_lt (by decide) (digit_lt isCode)
  rw [List.length_map] at bound
  calc base32 code < 32 ^ code.length := bound
    _ ≤ 32 ^ 12 := Nat.pow_le_pow_right (by decide) short
    _ < 2 ^ 64 := by decide

variable [GeoOps]

/-- The codes of a query are the beginnings of one code, none of them longer than it. -/
theorem genQueryAssignGeoHash_codes {p : GeoHashParser} {lat lon : GoFloat} {ds : List GoString} {d : GoString}
    (points : IsCode (GeoOps.encode lat lon)) (run : p.genQueryAssignGeoHash lat lon = .ok ds) (mem : d ∈ ds) :
    IsCode d ∧ d.length ≤ 12 ∧ p.option.precision ≤ 12 := by
  obtain ⟨_, _, run⟩ := bind_eq_ok.mp run
  have length := GeoOps.encode_length lat lon
  have cut : ∀ {i : Int} {d : GoString}, takeCode (GeoOps.encode lat lon) i = .ok d →
      i ≤ 12 ∧ d = (GeoOps.encode lat lon).take i.toNat := by
    intro i d taken
    unfold takeCode at taken
    split at taken
    · cases taken
    · exact ⟨by omega, (Except.ok.inj taken).symm⟩
  obtain ⟨i, inside, taken⟩ := mem_mapM run mem
  obtain ⟨_, rfl⟩ := cut taken
  refine ⟨fun c inCode => points c (List.mem_of_mem_take inCode), ?_, ?_⟩
  · rw [← length]
    exact List.length_take_le' _ _
  · have last : p.option.precision ∈ p.lengths := by
      simp only [lengths, List.mem_map, List.mem_range] at inside ⊢
      obtain ⟨j, lt, _⟩ := inside
      exact ⟨(p.option.precision - p.option.compressPrecisionMin).toNat, by omega, by omega⟩
    obtain ⟨_, _, taken⟩ := mapM_mem run last
    exact (cut taken).1

theorem tokenizeAssign_codes {p : GeoHashParser} {a : Value} {ds : List GoString} {d : GoString}
    (points : ∀ lat lon, IsCode (GeoOps.encode lat lon)) (run : p.tokenizeAssign a = .ok ds) (mem : d ∈ ds) :
    IsCode d ∧ d.length ≤ 12 ∧ p.option.precision ≤ 12 := by
  unfold tokenizeAssign at run
  split at run
  · exact genQueryAssignGeoHash_codes (points _ _) run mem
  · split at run
    · exact genQueryAssignGeoHash_codes (points _ _) run mem
    · cases run
  · cases run

variable [FloatOps]

/-- The two interfaces agree on a value and a query unless they have codes that differ by leading
zeros only: codes of several lengths are mixed, and the number of a code forgets its length. -/
theorem geohash_interfaces_agree_iff {p : GeoHashParser} {v a : Value} {cs ds : List GoString}
    (converts : ∀ code, IsCode code → code.length ≤ 12 → GeoOps.convertStringToInt code = UInt64.ofNat (base32 code))
    (points : ∀ lat lon, IsCode (GeoOps.encode lat lon)) (values : p.tokenizeValue v = .ok cs)
    (codes : ∀ c ∈ cs, IsCode c ∧ p.option.compressPrecisionMin ≤ c.length ∧ (c.length : Int) ≤ p.option.precision)
    (query : p.tokenizeAssign a = .ok ds) :
    ∃ ids qs, p.generator.parseValue v = .ok ids ∧ p.generator.parseAssign a = .ok qs ∧
      (((∃ id ∈ ids, id ∈ qs) ↔ ∃ c ∈ cs, c ∈ ds) ↔
        ((∃ c ∈ cs, c ∈ ds) ∨ ∀ c ∈ cs, ∀ d ∈ ds, Padded c d ∨ Padded d c → c = d)) := by
  have same : ∀ c ∈ cs, ∀ d ∈ ds,
      (GeoOps.convertStringToInt c = GeoOps.convertStringToInt d ↔ Padded c d ∨ Padded d c) := by
    intro c hc d hd
    obtain ⟨isCode, _, short⟩ := codes c hc
    obtain ⟨isCode', short', precision⟩ := tokenizeAssign_codes points query hd
    rw [converts c isCode (by omega), converts d isCode' short', ← base32_eq_iff isCode isCode', ← UInt64.toNat_inj,
      UInt64.toNat_ofNat_of_lt' (base32_lt isCode (by omega)), UInt64.toNat_ofNat_of_lt' (base32_lt isCode' short')]
  have shares : (∃ id ∈ cs.map GeoOps.convertStringToInt, id ∈ ds.map GeoOps.convertStringToInt) ↔
      ∃ c ∈ cs, ∃ d ∈ ds, Padded c d ∨ Padded d c := by
    constructor
    · intro ⟨id, inValue, inQuery⟩
      obtain ⟨c, hc, rfl⟩ := List.mem_map.mp inValue
      obtain ⟨d, hd, eq⟩ := List.mem_map.mp inQuery
      exact ⟨c, hc, d, hd, (same c hc d hd).mp eq.symm⟩
    · intro ⟨c, hc, d, hd, padded⟩
      refine ⟨_, List.mem_map_of_mem hc, ?_⟩
      rw [(same c hc d hd).mpr padded]
      exact List.mem_map_of_mem hd
  refine ⟨cs.map GeoOps.convertStringToInt, ds.map GeoOps.convertStringToInt, bind_eq_ok.mpr ⟨cs, values, rfl⟩,
    bind_eq_ok.mpr ⟨ds, query, rfl⟩, ?_⟩
  rw [shares]
  constructor
  · intro agree
    by_contra differ
    obtain ⟨noShare, pair⟩ := not_or.mp differ
    refine pair fun c hc d hd padded => ?_
    exact absurd (agree.mp ⟨c, hc, d, hd, padded⟩) noShare
  · intro fine
    refine ⟨fun ⟨c, hc, d, hd, padded⟩ => ?_, fun ⟨c, hc, hd⟩ => ⟨c, hc, c, hd, Or.inl ⟨0, rfl⟩⟩⟩
    rcases fine with share | equal
    · exact share
    · exact ⟨c, hc, equal c hc d hd padded ▸ hd⟩

end GeoHashParser

section Polar

open GeoHashParser

/-- Geohash libraries in a world with one region and one point. -/
@[reducible]
def GeoOps.places (region point : GoString) (length : point.length = 12) : GeoOps where
  toUInt64 _ := 0
  regionCodes _ _ _ _ _ _ := [region]
  encode _ _ := point
  encode_length _ _ := length
  convertStringToInt code := UInt64.ofNat (base32 code)

@[reducible]
def FloatOps.zeros : FloatOps := { FloatOps.noFloats with parseFloat := fun _ => some ⟨0⟩ }

/-- A region and a point in it share a number. -/
theorem geohash_interfaces_agree_inside :
    let _ := FloatOps.zeros
    let _ := GeoOps.places (str "bcd0") (str "bcd000000000") (by decide)
    let p := newGeoHashParser none
    ∃ ids qs, p.generator.parseValue (.scalar (.string (str "0:0:9"))) = .ok ids ∧
      p.generator.parseAssign (.float64Pair ⟨0⟩ ⟨0⟩) = .ok qs ∧ ∃ id ∈ ids, id ∈ qs := by
  intro _ _ p
  have share : ∃ c ∈ [str "bcd0"], c ∈ [str "bcd", str "bcd0", str "bcd00", str "bcd000"] :=
    ⟨str "bcd0", by simp, by simp⟩
  obtain ⟨ids, qs, value, query, agree⟩ := geohash_interfaces_agree_iff (p := p) (v := .scalar (.string (str "0:0:9")))
    (a := .float64Pair ⟨0⟩ ⟨0⟩) (fun _ _ _ => rfl) (fun _ _ => show IsCode (str "bcd000000000") by decide +kernel)
    (show p.tokenizeValue _ = .ok [str "bcd0"] from rfl) (by decide +kernel)
    (show p.tokenizeAssign _ = .ok [str "bcd", str "bcd0", str "bcd00", str "bcd000"] from rfl)
  exact ⟨ids, qs, value, query, (agree.mpr (Or.inl share)).mpr share⟩

/-- The cell `000bcd` and the cell `bcd` are far apart, and have the same number. -/
theorem geohash_numbers_collide :
    let _ := FloatOps.zeros
    let _ := GeoOps.places (str "000bcd") (str "bcd000000000") (by decide)
    let p := newGeoHashParser none
    p.tokenizeValue (.scalar (.string (str "0:0:9"))) = .ok [str "000bcd"] ∧
    p.tokenizeAssign (.float64Pair ⟨0⟩ ⟨0⟩) = .ok [str "bcd", str "bcd0", str "bcd00", str "bcd000"] ∧
    p.generator.parseValue (.scalar (.string (str "0:0:9"))) = .ok [10604] ∧
    p.generator.parseAssign (.float64Pair ⟨0⟩ ⟨0⟩) = .ok [10604, 339328, 10858496, 347471872] :=
  ⟨rfl, rfl, rfl, rfl⟩

end Polar

end BeIndexer
