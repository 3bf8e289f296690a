import BeIndexer.Go
import BeIndexer.Lib.MachineInt
import Mathlib.Data.List.Sort
import Mathlib.Data.Prod.Lex

/-!
# Conjunction and entry ids (`id_types.go`)

A conjunction id packs `size | index | sign | |docID|` into 60 bits, an entry id appends four bits
of which the last one tells include from exclude. The scan relies on the numeric order this gives:
the exclude entry of a conjunction comes right before its include entry, and larger conjunctions
come later.
-/

namespace BeIndexer

abbrev DocID := Int64
abbrev ConjID := UInt64
abbrev EntryID := UInt64
abbrev Entries := List EntryID

def sortEntries (entries : Entries) : Entries := entries.insertionSort (· ≤ ·)

theorem sortEntries_perm (entries : Entries) : (sortEntries entries).Perm entries :=
  List.perm_insertionSort _ _

@[simp]
theorem mem_sortEntries {entries : Entries} {e : EntryID} : e ∈ sortEntries entries ↔ e ∈ entries :=
  (sortEntries_perm entries).mem_iff

theorem sortEntries_sorted (entries : Entries) : (sortEntries entries).Pairwise (· ≤ ·) :=
  List.pairwise_insertionSort _ _

@[simp]
theorem sortEntries_eq_nil {entries : Entries} : sortEntries entries = [] ↔ entries = [] := by
  constructor
  · intro h
    exact List.Perm.eq_nil (h ▸ (sortEntries_perm entries).symm)
  · rintro rfl
    rfl

def MaxDocID : Int := 0x7FFFFFFFFFF

def NULLENTRY : EntryID := 0xFFFFFFFFFFFFFFFF

def validDocID (id : DocID) : Bool := id.toInt ≤ MaxDocID && id.toInt ≥ -MaxDocID

def validIdxOrSize (v : Int) : Bool := v ≥ 0 && v < 256

/-- The bits of `NewConjID`, once its arguments are checked. -/
def packConjID (docID : DocID) (index size : Nat) : ConjID :=
  let negSign : UInt64 := if docID < 0 then 1 else 0
  let docID := if docID < 0 then -docID else docID
  (size.toUInt64 <<< 52) ||| (index.toUInt64 <<< 44) ||| (negSign <<< 43) ||| docID.toUInt64

def newConjID (docID : DocID) (index size : Int) : Go ConjID :=
  if !validDocID docID || !validIdxOrSize index || !validIdxOrSize size then
    panicf "id overflow, id:%d, idx:%d size:%d" [.int docID.toInt, .int index, .int size]
  else .ok (packConjID docID index.toNat size.toNat)

namespace ConjID

def size (id : ConjID) : Nat := ((id >>> 52) &&& 0xFF).toNat

def index (id : ConjID) : Nat := ((id >>> 44) &&& 0xFF).toNat

def docID (id : ConjID) : DocID :=
  let negSign := (id >>> 43) &&& 0x1
  let docID := (id &&& 0x7FFFFFFFFFF).toInt64
  if negSign > 0 then -docID else docID

end ConjID

def newEntryID (id : ConjID) (incl : Bool) : EntryID :=
  if !incl then id <<< 4 else (id <<< 4) ||| 0x01

namespace EntryID

def isExclude (entry : EntryID) : Bool := entry &&& 0x01 == 0

def isInclude (entry : EntryID) : Bool := entry &&& 0x01 > 0

def getConjID (entry : EntryID) : ConjID := entry >>> 4

def isNULLEntry (entry : EntryID) : Bool := entry == NULLENTRY

end EntryID

/-! ### The packed value -/

theorem or_eq_add {a b i : Nat} (h : b < 2 ^ i) : (a * 2 ^ i) ||| b = a * 2 ^ i + b := by
  rw [Nat.mul_comm, ← Nat.two_pow_add_eq_or_of_lt h]

/-- The magnitude of a document id as the unsigned word that is packed. -/
def magnitude (docID : DocID) : Nat := docID.toInt.natAbs

theorem validDocID_iff {docID : DocID} : validDocID docID = true ↔ magnitude docID ≤ 0x7FFFFFFFFFF := by
  rw [validDocID, Bool.and_eq_true, decide_eq_true_iff, decide_eq_true_iff]
  unfold MaxDocID magnitude
  omega

theorem neg_toInt {docID : DocID} (valid : validDocID docID = true) : (-docID).toInt = -docID.toInt := by
  have bound := validDocID_iff.mp valid
  simp only [magnitude] at bound
  rw [Int64.toInt_neg]
  exact Int.bmod_eq_of_le (by omega) (by omega)

theorem toUInt64_toNat {x : Int64} (nonneg : 0 ≤ x.toInt) : x.toUInt64.toNat = x.toInt.toNat := by
  have wrap : x.toInt = (x.toUInt64.toNat : Int).bmod (2 ^ 64) := BitVec.toInt_eq_toNat_bmod x.toBitVec
  have bound := x.toUInt64.toNat_lt
  rw [Int.bmod_def] at wrap
  split at wrap <;> omega

theorem packConjID_toNat {docID : DocID} {index size : Nat} (valid : validDocID docID = true)
    (hi : index < 256) (hs : size < 256) :
    (packConjID docID index size).toNat =
      size * 2 ^ 52 + index * 2 ^ 44 + (if docID < 0 then 1 else 0) * 2 ^ 43 + magnitude docID := by
  have bound := validDocID_iff.mp valid
  have negInt := neg_toInt valid
  have mag : ((if docID < 0 then -docID else docID).toUInt64).toNat = magnitude docID := by
    simp only [magnitude] at bound ⊢
    split
    · rename_i sign
      have : docID.toInt < 0 := Int64.lt_iff_toInt_lt.mp sign
      rw [toUInt64_toNat (by omega)]
      omega
    · rename_i sign
      have : ¬ docID.toInt < 0 := fun h => sign (Int64.lt_iff_toInt_lt.mpr h)
      rw [toUInt64_toNat (by omega)]
      omega
  have sign : (if docID < 0 then (1 : UInt64) else 0).toNat = (if docID < 0 then 1 else 0) := by split <;> rfl
  have signLe : (if docID < 0 then 1 else 0) < 2 := by split <;> omega
  generalize (if docID < 0 then 1 else 0) = neg at sign signLe
  simp only [packConjID, UInt64.toNat_or, UInt64.toNat_shiftLeft, mag, sign, Nat.toUInt64,
    UInt64.toNat_ofNat', Nat.shiftLeft_eq]
  rw [Nat.mod_eq_of_lt (show size < 2 ^ 64 by omega), Nat.mod_eq_of_lt (show index < 2 ^ 64 by omega)]
  change size * 2 ^ 52 % 2 ^ 64 ||| index * 2 ^ 44 % 2 ^ 64 ||| neg * 2 ^ 43 % 2 ^ 64 ||| magnitude docID = _
  rw [Nat.mod_eq_of_lt (show size * 2 ^ 52 < 2 ^ 64 by omega), Nat.mod_eq_of_lt (show index * 2 ^ 44 < 2 ^ 64 by omega),
    Nat.mod_eq_of_lt (show neg * 2 ^ 43 < 2 ^ 64 by omega)]
  rw [or_eq_add (show index * 2 ^ 44 < 2 ^ 52 by omega)]
  rw [show size * 2 ^ 52 + index * 2 ^ 44 = (size * 2 ^ 8 + index) * 2 ^ 44 by omega,
    or_eq_add (show neg * 2 ^ 43 < 2 ^ 44 by omega)]
  rw [show (size * 2 ^ 8 + index) * 2 ^ 44 + neg * 2 ^ 43 = (size * 2 ^ 9 + index * 2 + neg) * 2 ^ 43 by omega,
    or_eq_add (show magnitude docID < 2 ^ 43 by omega)]

/-! ### The accessors undo the packing -/

theorem size_eq (c : ConjID) : c.size = c.toNat / 2 ^ 52 % 256 := by
  have mask : ∀ n : Nat, n &&& 255 = n % 256 := fun n => Nat.and_two_pow_sub_one_eq_mod n 8
  simp only [ConjID.size, UInt64.toNat_and, UInt64.toNat_shiftRight, Nat.shiftRight_eq_div_pow]
  exact mask _

theorem index_eq (c : ConjID) : c.index = c.toNat / 2 ^ 44 % 256 := by
  have mask : ∀ n : Nat, n &&& 255 = n % 256 := fun n => Nat.and_two_pow_sub_one_eq_mod n 8
  simp only [ConjID.index, UInt64.toNat_and, UInt64.toNat_shiftRight, Nat.shiftRight_eq_div_pow]
  exact mask _

theorem packConjID_size {docID : DocID} {index size : Nat} (valid : validDocID docID = true)
    (hi : index < 256) (hs : size < 256) : (packConjID docID index size).size = size := by
  have bound := validDocID_iff.mp valid
  rw [size_eq, packConjID_toNat valid hi hs]
  split <;> omega

theorem packConjID_index {docID : DocID} {index size : Nat} (valid : validDocID docID = true)
    (hi : index < 256) (hs : size < 256) : (packConjID docID index size).index = index := by
  have bound := validDocID_iff.mp valid
  rw [index_eq, packConjID_toNat valid hi hs]
  split <;> omega

theorem packConjID_docID {docID : DocID} {index size : Nat} (valid : validDocID docID = true)
    (hi : index < 256) (hs : size < 256) : (packConjID docID index size).docID = docID := by
  have bound := validDocID_iff.mp valid
  have packed := packConjID_toNat valid hi hs
  have low : (packConjID docID index size &&& 0x7FFFFFFFFFF).toNat = magnitude docID := by
    have mask : ∀ n : Nat, n &&& 0x7FFFFFFFFFF = n % 2 ^ 43 := fun n => Nat.and_two_pow_sub_one_eq_mod n 43
    rw [UInt64.toNat_and]
    refine (mask _).trans ?_
    rw [packed]
    split <;> omega
  have high : ((packConjID docID index size >>> 43) &&& 0x1).toNat = if docID < 0 then 1 else 0 := by
    have mask : ∀ n : Nat, n &&& 1 = n % 2 := fun n => Nat.and_two_pow_sub_one_eq_mod n 1
    simp only [UInt64.toNat_and, UInt64.toNat_shiftRight, Nat.shiftRight_eq_div_pow]
    refine (mask _).trans ?_
    change (packConjID docID index size).toNat / 2 ^ 43 % 2 = _
    rw [packed]
    split <;> omega
  have value : (packConjID docID index size &&& 0x7FFFFFFFFFF).toInt64.toInt = magnitude docID := by
    have same : (packConjID docID index size &&& 0x7FFFFFFFFFF).toInt64.toInt =
        ((packConjID docID index size &&& 0x7FFFFFFFFFF).toNat : Int).bmod (2 ^ 64) :=
      BitVec.toInt_eq_toNat_bmod _
    rw [same, low]
    exact Int.bmod_eq_of_le (by omega) (by omega)
  unfold ConjID.docID
  simp only [gt_iff_lt, UInt64.lt_iff_toNat_lt, high]
  simp only [magnitude] at value bound
  apply Int64.toInt_inj.mp
  by_cases neg : docID < 0
  · have negInt : docID.toInt < 0 := Int64.lt_iff_toInt_lt.mp neg
    simp only [neg, if_true]
    rw [if_pos (by decide), Int64.toInt_neg, value]
    exact (Int.bmod_eq_of_le (by omega) (by omega)).trans (by omega)
  · have nonneg : ¬ docID.toInt < 0 := fun h => neg (Int64.lt_iff_toInt_lt.mpr h)
    simp only [neg, if_false]
    rw [if_neg (by decide), value]
    omega

theorem newConjID_ok {docID : DocID} {index size : Int} {c : ConjID} (h : newConjID docID index size = .ok c) :
    validDocID docID = true ∧ 0 ≤ index ∧ index < 256 ∧ 0 ≤ size ∧ size < 256 ∧
      c = packConjID docID index.toNat size.toNat := by
  unfold newConjID at h
  split at h
  · simp [panicf] at h
  · rename_i valid
    simp only [Bool.or_eq_true, not_or, Bool.not_eq_true', Bool.not_eq_false, validIdxOrSize, Bool.and_eq_true,
      decide_eq_true_eq, ge_iff_le] at valid
    exact ⟨valid.1.1, valid.1.2.1, valid.1.2.2, valid.2.1, valid.2.2, (Except.ok.inj h).symm⟩

/-- A conjunction id in the 60 bits that `NewConjID` fills. -/
def ValidConjID (c : ConjID) : Prop := c.toNat < 2 ^ 60

theorem packConjID_valid {docID : DocID} {index size : Nat} (valid : validDocID docID = true)
    (hi : index < 256) (hs : size < 256) : ValidConjID (packConjID docID index size) := by
  have bound := validDocID_iff.mp valid
  rw [ValidConjID, packConjID_toNat valid hi hs]
  split <;> omega

theorem newConjID_fields {docID : DocID} {index size : Int} {c : ConjID} (h : newConjID docID index size = .ok c) :
    ValidConjID c ∧ (c.size : Int) = size ∧ (c.index : Int) = index ∧ c.docID = docID := by
  obtain ⟨valid, ilo, ihi, slo, shi, rfl⟩ := newConjID_ok h
  have hi : index.toNat < 256 := by omega
  have hs : size.toNat < 256 := by omega
  rw [packConjID_size valid hi hs, packConjID_index valid hi hs, packConjID_docID valid hi hs]
  exact ⟨packConjID_valid valid hi hs, by omega, by omega, rfl⟩

theorem newConjID_fault {docID : DocID} {index size : Int} {fault : Fault}
    (h : newConjID docID index size = .error fault) : ∃ e, fault = .panic e := by
  unfold newConjID at h
  split at h
  · exact ⟨_, (Except.error.inj h).symm⟩
  · cases h

/-! ### Entry ids and the order of the scan -/

theorem newEntryID_toNat {c : ConjID} (valid : ValidConjID c) (incl : Bool) :
    (newEntryID c incl).toNat = 16 * c.toNat + (if incl then 1 else 0) := by
  have shift : (c <<< 4).toNat = c.toNat * 2 ^ 4 := by
    rw [UInt64.toNat_shiftLeft, Nat.shiftLeft_eq]
    unfold ValidConjID at valid
    change c.toNat * 2 ^ 4 % 2 ^ 64 = _
    omega
  cases incl with
  | false =>
    change (c <<< 4).toNat = _
    simp only [shift, Bool.false_eq_true, if_false]
    omega
  | true =>
    change ((c <<< 4) ||| 0x01).toNat = _
    rw [UInt64.toNat_or, shift]
    refine (or_eq_add (by decide)).trans ?_
    simp only [if_true]
    change c.toNat * 2 ^ 4 + 1 = _
    omega

theorem getConjID_toNat (e : EntryID) : e.getConjID.toNat = e.toNat / 16 := by
  simp only [EntryID.getConjID, UInt64.toNat_shiftRight, Nat.shiftRight_eq_div_pow]
  rfl

theorem getConjID_valid (e : EntryID) : ValidConjID e.getConjID := by
  have := e.toNat_lt
  rw [ValidConjID, getConjID_toNat]
  omega

theorem getConjID_newEntryID {c : ConjID} (valid : ValidConjID c) (incl : Bool) :
    (newEntryID c incl).getConjID = c := by
  apply UInt64.toNat_inj.mp
  rw [getConjID_toNat, newEntryID_toNat valid]
  split <;> omega

theorem isInclude_iff (e : EntryID) : e.isInclude = true ↔ e.toNat % 2 = 1 := by
  have mask : e.toNat &&& 1 = e.toNat % 2 := Nat.and_two_pow_sub_one_eq_mod _ 1
  simp only [EntryID.isInclude, gt_iff_lt, decide_eq_true_eq, UInt64.lt_iff_toNat_lt, UInt64.toNat_and]
  change 0 < e.toNat &&& 1 ↔ _
  omega

theorem isInclude_newEntryID {c : ConjID} (valid : ValidConjID c) (incl : Bool) :
    (newEntryID c incl).isInclude = incl := by
  rw [Bool.eq_iff_iff, isInclude_iff, newEntryID_toNat valid]
  cases incl <;> simp <;> omega

/-- An entry id that `NewEntryID` can return. -/
def ValidEntry (e : EntryID) : Prop := ∃ c incl, ValidConjID c ∧ e = newEntryID c incl

theorem ValidEntry.toNat {e : EntryID} (valid : ValidEntry e) :
    e.toNat = 16 * e.getConjID.toNat + (if e.isInclude then 1 else 0) := by
  obtain ⟨c, incl, hc, rfl⟩ := valid
  rw [getConjID_newEntryID hc, isInclude_newEntryID hc, newEntryID_toNat hc]

theorem ValidEntry.eq {e : EntryID} (valid : ValidEntry e) : e = newEntryID e.getConjID e.isInclude := by
  obtain ⟨c, incl, hc, rfl⟩ := valid
  rw [getConjID_newEntryID hc, isInclude_newEntryID hc]

theorem ValidEntry.ne_null {e : EntryID} (valid : ValidEntry e) : e ≠ NULLENTRY := by
  intro h
  have value := valid.toNat
  have conj := getConjID_toNat e
  rw [h] at value conj
  change 18446744073709551615 = _ at value
  change _ = 18446744073709551615 / 16 at conj
  split at value <;> omega

/-- The id a round of the scan skips to past a conjunction lies above its entries and below the
next conjunction's. -/
theorem pastConj_toNat {c : ConjID} (valid : ValidConjID c) :
    (newEntryID c true + 1).toNat = 16 * c.toNat + 2 := by
  unfold ValidConjID at valid
  rw [UInt64.toNat_add, newEntryID_toNat valid]
  change (16 * c.toNat + 1 + 1) % 2 ^ 64 = _
  omega

theorem ValidEntry.pastConj_le {e : EntryID} {c : ConjID} (valid : ValidEntry e) (hc : ValidConjID c) :
    newEntryID c true + 1 ≤ e ↔ c < e.getConjID := by
  rw [UInt64.le_iff_toNat_le, UInt64.lt_iff_toNat_lt, pastConj_toNat hc, valid.toNat]
  split <;> omega

theorem firstOfConj_le {e : EntryID} {c : ConjID} (hc : ValidConjID c) :
    newEntryID c false ≤ e ↔ c ≤ e.getConjID := by
  rw [UInt64.le_iff_toNat_le, UInt64.le_iff_toNat_le, newEntryID_toNat hc, getConjID_toNat]
  simp only [Bool.false_eq_true, if_false]
  omega

theorem getConjID_mono {e f : EntryID} (le : e ≤ f) : e.getConjID ≤ f.getConjID := by
  rw [UInt64.le_iff_toNat_le, getConjID_toNat, getConjID_toNat]
  rw [UInt64.le_iff_toNat_le] at le
  omega

theorem size_mono {c d : ConjID} (hd : ValidConjID d) (le : c ≤ d) : c.size ≤ d.size := by
  rw [UInt64.le_iff_toNat_le] at le
  unfold ValidConjID at hd
  rw [size_eq, size_eq]
  omega

/-! ### The packing as an order -/

/-- Arguments that `NewConjID` accepts. -/
structure ConjArgs where
  docID : DocID
  index : Int
  size : Int
  docID_le : (magnitude docID : Int) ≤ MaxDocID
  index_mem : 0 ≤ index ∧ index ≤ 255
  size_mem : 0 ≤ size ∧ size ≤ 255

namespace ConjArgs

/-- The place of an entry in the scan. -/
def key (a : ConjArgs) (incl : Bool) : Int ×ₗ Int ×ₗ Bool ×ₗ Nat ×ₗ Bool :=
  toLex (a.size, toLex (a.index, toLex (decide (a.docID < 0), toLex (magnitude a.docID, incl))))

theorem validDocID (a : ConjArgs) : validDocID a.docID = true := by
  have bound := a.docID_le
  unfold MaxDocID at bound
  rw [validDocID_iff]
  omega

theorem newConjID_eq (a : ConjArgs) :
    newConjID a.docID a.index a.size = .ok (packConjID a.docID a.index.toNat a.size.toNat) := by
  have hi := a.index_mem
  have hs := a.size_mem
  unfold newConjID validIdxOrSize
  rw [if_neg]
  simp only [a.validDocID, Bool.not_true, Bool.false_or, Bool.or_eq_true, Bool.not_eq_true',
    Bool.and_eq_false_iff, decide_eq_false_iff_not]
  omega

theorem packed_toNat (a : ConjArgs) :
    (packConjID a.docID a.index.toNat a.size.toNat).toNat = a.size.toNat * 2 ^ 52 + a.index.toNat * 2 ^ 44 +
      (decide (a.docID < 0)).toNat * 2 ^ 43 + magnitude a.docID := by
  have hi := a.index_mem
  have hs := a.size_mem
  have sign : (if a.docID < 0 then 1 else 0) = (decide (a.docID < 0)).toNat := by split <;> simp [*]
  rw [packConjID_toNat a.validDocID (by omega) (by omega), sign]

end ConjArgs

theorem isExclude_newEntryID {c : ConjID} (valid : ValidConjID c) (incl : Bool) :
    (newEntryID c incl).isExclude = !incl := by
  have mask : ∀ n : Nat, n &&& 1 = n % 2 := fun n => Nat.and_two_pow_sub_one_eq_mod n 1
  rw [Bool.eq_iff_iff, EntryID.isExclude, beq_iff_eq, ← UInt64.toNat_inj, UInt64.toNat_and,
    newEntryID_toNat valid]
  refine (show _ ↔ _ from Eq.congr_left (mask _)).trans ?_
  cases incl <;> simp <;> omega

theorem pack_lt {high bound low base : Nat} (lt : high < bound) (low_lt : low < base) :
    high * base + low < bound * base := by
  have step := Nat.mul_le_mul_right base lt
  rw [Nat.succ_mul] at step
  omega

theorem pack_lt_iff {high high' low low' base : Nat} (lt : low < base) (lt' : low' < base) :
    high * base + low < high' * base + low' ↔ high < high' ∨ high = high' ∧ low < low' := by
  rcases Nat.lt_trichotomy high high' with less | rfl | more
  · have := pack_lt less lt
    omega
  · omega
  · have := pack_lt more lt'
    omega

/-- An entry as its fields, each packed above the ones it takes precedence over. -/
theorem newEntryID_packed {a : ConjArgs} {c : ConjID} (made : newConjID a.docID a.index a.size = .ok c) (incl : Bool) :
    (newEntryID c incl).toNat = a.size.toNat * 2 ^ 56 + (a.index.toNat * 2 ^ 48 +
      ((decide (a.docID < 0)).toNat * 2 ^ 47 + (magnitude a.docID * 16 + incl.toNat))) := by
  have packed := (Except.ok.inj (a.newConjID_eq.symm.trans made)) ▸ a.packed_toNat
  have bit : (if incl = true then 1 else 0) = incl.toNat := by cases incl <;> rfl
  rw [newEntryID_toNat (newConjID_fields made).1, packed, bit]
  omega

theorem newEntryID_lt_iff {a b : ConjArgs} {c d : ConjID} (hc : newConjID a.docID a.index a.size = .ok c)
    (hd : newConjID b.docID b.index b.size = .ok d) (i j : Bool) :
    newEntryID c i < newEntryID d j ↔ a.key i < b.key j := by
  have bit : ∀ x : Bool, x.toNat < 2 := by decide
  have bits_lt : ∀ x y : Bool, x < y ↔ x.toNat < y.toNat := by decide
  have bits_eq : ∀ x y : Bool, x = y ↔ x.toNat = y.toNat := by decide
  -- no field overflows into the next
  have fits : ∀ (x : ConjArgs) (incl : Bool), magnitude x.docID * 16 + incl.toNat < 2 ^ 47 := by
    intro x incl
    have := validDocID_iff.mp x.validDocID
    have := bit incl
    omega
  have fits' : ∀ (x : ConjArgs) (incl : Bool),
      (decide (x.docID < 0)).toNat * 2 ^ 47 + (magnitude x.docID * 16 + incl.toNat) < 2 ^ 48 := by
    intro x incl
    exact lt_of_lt_of_eq (pack_lt (bit _) (fits x incl)) (by decide)
  have fits'' : ∀ (x : ConjArgs) (incl : Bool), x.index.toNat * 2 ^ 48 +
      ((decide (x.docID < 0)).toNat * 2 ^ 47 + (magnitude x.docID * 16 + incl.toNat)) < 2 ^ 56 := by
    intro x incl
    have index_lt : x.index.toNat < 256 := by
      have := x.index_mem
      omega
    exact lt_of_lt_of_eq (pack_lt index_lt (fits' x incl)) (by decide)
  rw [UInt64.lt_iff_toNat_lt, newEntryID_packed hc, newEntryID_packed hd, pack_lt_iff (fits'' a i) (fits'' b j),
    pack_lt_iff (fits' a i) (fits' b j), pack_lt_iff (fits a i) (fits b j),
    pack_lt_iff (by have := bit i; omega) (by have := bit j; omega)]
  simp only [ConjArgs.key, Prod.Lex.toLex_lt_toLex, bits_lt, bits_eq (decide (a.docID < 0))]
  have natural : ∀ {x y : Int}, 0 ≤ x → 0 ≤ y → (x.toNat < y.toNat ↔ x < y) ∧ (x.toNat = y.toNat ↔ x = y) := by omega
  rw [(natural a.size_mem.1 b.size_mem.1).1, (natural a.size_mem.1 b.size_mem.1).2,
    (natural a.index_mem.1 b.index_mem.1).1,
    (natural a.index_mem.1 b.index_mem.1).2]

/-- The packing is faithful and ordered as the scan needs it: the fields are recovered, entries are
ordered by (size, index, sign, magnitude, exclude before include), the id past a conjunction lies
between its entries and those of every later one, and the sentinel is no entry. -/
theorem newConjID_faithful (a b : ConjArgs) :
    ∃ c d, newConjID a.docID a.index a.size = .ok c ∧ newConjID b.docID b.index b.size = .ok d ∧
      (c = d → a = b) ∧
      (c.docID = a.docID ∧ (c.index : Int) = a.index ∧ (c.size : Int) = a.size) ∧
      (∀ i, (newEntryID c i).getConjID = c ∧ (newEntryID c i).isInclude = i ∧
        (newEntryID c i).isExclude = !i ∧ newEntryID c i ≠ NULLENTRY) ∧
      (∀ i j, newEntryID c i < newEntryID d j ↔ a.key i < b.key j) ∧
      (newEntryID c true + 1).toNat = (newEntryID c true).toNat + 1 ∧
      (∀ i, newEntryID c i < newEntryID c true + 1) ∧
      (c < d → ∀ j, newEntryID c true + 1 ≤ newEntryID d j) := by
  have hc := a.newConjID_eq
  have hd := b.newConjID_eq
  generalize packConjID a.docID a.index.toNat a.size.toNat = c at hc
  generalize packConjID b.docID b.index.toNat b.size.toNat = d at hd
  obtain ⟨vc, cs, ci, cd⟩ := newConjID_fields hc
  obtain ⟨vd, ds, di, dd⟩ := newConjID_fields hd
  refine ⟨c, d, hc, hd, ?_, ⟨cd, ci, cs⟩, ?_, newEntryID_lt_iff hc hd, ?_, ?_, ?_⟩
  · intro same
    subst same
    cases a
    cases b
    simp_all
  · intro i
    exact ⟨getConjID_newEntryID vc i, isInclude_newEntryID vc i, isExclude_newEntryID vc i,
      ValidEntry.ne_null ⟨c, i, vc, rfl⟩⟩
  · rw [pastConj_toNat vc, newEntryID_toNat vc, if_pos rfl]
  · intro i
    rw [UInt64.lt_iff_toNat_lt, pastConj_toNat vc, newEntryID_toNat vc]
    split <;> omega
  · intro lt j
    have entry : ValidEntry (newEntryID d j) := ⟨d, j, vd, rfl⟩
    rw [entry.pastConj_le vc, getConjID_newEntryID vd]
    exact lt

end BeIndexer
