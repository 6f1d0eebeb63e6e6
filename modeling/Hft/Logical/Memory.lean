import Hft.Logical.Arithmetic
import Hft.Logical.CString
import Mathlib.Data.List.GetD
import Mathlib.Tactic.Ring

/-!
# Integers and arrays in memory

Little-endian integers and byte arrays at an offset of some address, and the bytes that put
them there. `Holds` says what lies at an offset; what is read from it follows
(`unsigned_of_holds`, `signed_of_holds`, `charArray_of_holds`), and a record that is the
concatenation of its fields is taken apart by `holds_append_iff`.
-/

namespace Hft.Logical

namespace Pointer

/-- The bytes from an offset on. -/
def bytes (p : Pointer) (offset width : Nat) : List UInt8 :=
  (List.range width).map fun index => p (offset + index)

/-- An unsigned integer in memory, lowest byte first. -/
def unsigned (p : Pointer) (offset width : Nat) : Nat :=
  (p.bytes offset width).foldr (fun byte rest => byte.toNat + 256 * rest) 0

/-- A two's complement integer in memory. -/
def signed (p : Pointer) (offset width : Nat) : Int :=
  Arithmetic.wrap (8 * width) (p.unsigned offset width)

def charArray (p : Pointer) (offset n : Nat) : CharArray n :=
  ⟨p.bytes offset n, by simp [bytes]⟩

/-- What lies at an offset. -/
def Holds (p : Pointer) (offset : Nat) (data : List UInt8) : Prop :=
  p.bytes offset data.length = data

/-- The address some bytes further on. -/
def shift (p : Pointer) (distance : Nat) : Pointer := fun offset => p (distance + offset)

/-- A store of some bytes at once. -/
def store (p : Pointer) (offset : Nat) (data : List UInt8) : Pointer := fun address =>
  if offset ≤ address ∧ address < offset + data.length then data.getD (address - offset) 0
  else p address

@[simp] theorem length_bytes (p : Pointer) (offset width : Nat) :
    (p.bytes offset width).length = width := by
  simp [bytes]

/-- Reading sees nothing outside of what it reads. -/
theorem bytes_congr {left right : Pointer} {offset width : Nat}
    (same : ∀ index < width, left (offset + index) = right (offset + index)) :
    left.bytes offset width = right.bytes offset width :=
  List.map_congr_left fun index member => same index (List.mem_range.mp member)

theorem unsigned_congr {left right : Pointer} {offset width : Nat}
    (same : ∀ index < width, left (offset + index) = right (offset + index)) :
    left.unsigned offset width = right.unsigned offset width := by
  rw [unsigned, bytes_congr same]
  rfl

theorem bytes_append (p : Pointer) (offset first second : Nat) :
    p.bytes offset (first + second) = p.bytes offset first ++ p.bytes (offset + first) second := by
  simp only [bytes, List.range_add, List.map_append, List.map_map]
  congr 1
  apply List.map_congr_left
  intro index _
  simp [Nat.add_assoc]

/-- A record is held field by field. -/
theorem holds_append_iff {p : Pointer} {offset : Nat} {front back : List UInt8} :
    p.Holds offset (front ++ back) ↔
      p.Holds offset front ∧ p.Holds (offset + front.length) back := by
  unfold Holds
  rw [List.length_append, bytes_append]
  constructor
  · intro same
    exact List.append_inj same (by simp)
  · rintro ⟨sameFront, sameBack⟩
    rw [sameFront, sameBack]

theorem holds_cons_iff {p : Pointer} {offset : Nat} {byte : UInt8} {rest : List UInt8} :
    p.Holds offset (byte :: rest) ↔ p offset = byte ∧ p.Holds (offset + 1) rest := by
  have single : p.Holds offset [byte] ↔ p offset = byte := by simp [Holds, bytes]
  rw [← List.singleton_append, holds_append_iff, single]
  rfl

/-- Byte by byte. -/
theorem holds_iff {p : Pointer} {offset : Nat} {data : List UInt8} :
    p.Holds offset data ↔ ∀ index < data.length, p (offset + index) = data.getD index 0 := by
  unfold Holds bytes
  constructor
  · intro same index below
    conv_rhs => rw [← same]
    simp [List.getD_eq_getElem?_getD, List.getElem?_range below]
  · intro same
    apply List.ext_getElem (by simp)
    intro index _ below
    rw [List.getElem_map, List.getElem_range, same index below, List.getD_eq_getElem _ _ below]

theorem holds_store (p : Pointer) (offset : Nat) (data : List UInt8) :
    (p.store offset data).Holds offset data := by
  apply holds_iff.mpr
  intro index below
  simp [store, below]

theorem store_of_outside {p : Pointer} {offset address : Nat} {data : List UInt8}
    (outside : address < offset ∨ offset + data.length ≤ address) :
    p.store offset data address = p address := if_neg (by omega)

end Pointer

/-! ## Integers as bytes -/

/-- The lowest bytes of a number, lowest first. -/
def littleEndian : Nat → Nat → List UInt8
  | 0, _ => []
  | width + 1, value => UInt8.ofNat value :: littleEndian width (value / 256)

/-- The bytes of a two's complement integer. -/
def littleEndianInt (width : Nat) (value : Int) : List UInt8 :=
  littleEndian width (value % 2 ^ (8 * width)).toNat

@[simp] theorem length_littleEndian (width value : Nat) :
    (littleEndian width value).length = width := by
  induction width generalizing value with
  | zero => rfl
  | succ width ih => rw [littleEndian, List.length_cons, ih]

@[simp] theorem length_littleEndianInt (width : Nat) (value : Int) :
    (littleEndianInt width value).length = width := length_littleEndian _ _

theorem foldr_littleEndian {width value : Nat} (fits : value < 256 ^ width) :
    (littleEndian width value).foldr (fun byte rest => byte.toNat + 256 * rest) 0 = value := by
  induction width generalizing value with
  | zero =>
      rw [pow_zero] at fits
      exact (Nat.lt_one_iff.mp fits).symm
  | succ width ih =>
      rw [pow_succ] at fits
      rw [littleEndian, List.foldr_cons, ih (Nat.div_lt_of_lt_mul (by omega)), UInt8.toNat_ofNat']
      omega

namespace Pointer

variable {p : Pointer} {offset : Nat}

theorem unsigned_of_holds {width value : Nat} (fits : value < 256 ^ width)
    (holds : p.Holds offset (littleEndian width value)) : p.unsigned offset width = value := by
  rw [Holds, length_littleEndian] at holds
  rw [unsigned, holds, foldr_littleEndian fits]

theorem signed_of_holds {width : Nat} {value : Int} (positive : 0 < width)
    (fits : InRange (8 * width) value) (holds : p.Holds offset (littleEndianInt width value)) :
    p.signed offset width = value := by
  have modulus : (0 : Int) < 2 ^ (8 * width) := by positivity
  have nonneg := Int.emod_nonneg value modulus.ne'
  have below := Int.emod_lt_of_pos value modulus
  have small : (value % 2 ^ (8 * width)).toNat < 256 ^ width := by
    have power : (256 : Int) ^ width = 2 ^ (8 * width) := by rw [pow_mul]; norm_num
    zify
    rw [Int.toNat_of_nonneg nonneg, power]
    exact below
  have half : (2 : Int) ^ (8 * width) = 2 * 2 ^ (8 * width - 1) := by
    rw [← pow_succ', Nat.sub_add_cancel (by omega)]
  obtain ⟨low, high⟩ := fits
  rw [signed, unsigned_of_holds small holds, Int.toNat_of_nonneg nonneg, Arithmetic.wrap,
    Int.emod_add_emod, Int.emod_eq_of_lt (by omega) (by omega)]
  omega

theorem charArray_of_holds {n : Nat} {array : CharArray n} (holds : p.Holds offset array.1) :
    p.charArray offset n = array := by
  apply Subtype.ext
  rw [Holds, array.2] at holds
  exact holds

end Pointer

end Hft.Logical
