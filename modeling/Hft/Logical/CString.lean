import Mathlib.Data.List.Basic
import Mathlib.Data.Nat.Digits.Defs
import Mathlib.Tactic.Common

/-!
# Bounded C strings

`strnlen`, `strncmp` and `strncpy` over raw byte pointers, and the `text` they
all agree on: the bytes before the first NUL among the first `n`. A pointer is a
total function, so a read past the end of a buffer is visible in the model as a
byte the caller did not choose. `strncmp_eq_zero_iff` and `string_strncpy` are the
only facts later modules use about the three library functions.
-/

namespace Hft.Logical

/-- The bytes readable from an address on. -/
abbrev Pointer := Nat → UInt8

namespace Pointer

/-- The pointer one byte further. -/
def tail (p : Pointer) : Pointer := fun index => p (index + 1)

/-- A NUL-terminated buffer holding `bytes`. -/
def ofList (bytes : List UInt8) : Pointer := fun index => bytes.getD index 0

@[simp] theorem ofList_nil_zero : ofList [] 0 = 0 := rfl

@[simp] theorem ofList_cons_zero (byte : UInt8) (rest : List UInt8) :
    ofList (byte :: rest) 0 = byte := rfl

@[simp] theorem tail_ofList_cons (byte : UInt8) (rest : List UInt8) :
    (ofList (byte :: rest)).tail = ofList rest := rfl

end Pointer

/-- The bytes before the first NUL among the first `n`. -/
def text : Nat → Pointer → List UInt8
  | 0, _ => []
  | n + 1, p => if p 0 = 0 then [] else p 0 :: text n p.tail

/-- `strnlen(p, n)`. -/
def strnlen (p : Pointer) : Nat → Nat
  | 0 => 0
  | n + 1 => if p 0 = 0 then 0 else strnlen p.tail n + 1

/-- `strncmp(left, right, n)`: the difference of the first bytes that differ, with
nothing read behind a common NUL. -/
def strncmp (left right : Pointer) : Nat → Int
  | 0 => 0
  | n + 1 =>
      if left 0 ≠ right 0 then (left 0).toNat - (right 0).toNat
      else if left 0 = 0 then 0
      else strncmp left.tail right.tail n

/-- The bytes `strncpy(_, source, n)` stores: the text, padded with NULs to `n`. -/
def strncpyBytes (source : Pointer) : Nat → List UInt8
  | 0 => []
  | n + 1 =>
      if source 0 = 0 then List.replicate (n + 1) 0
      else source 0 :: strncpyBytes source.tail n

/-- `strncmp` finds two strings equal exactly when their bounded texts agree. -/
theorem strncmp_eq_zero_iff {left right : Pointer} {n : Nat} :
    strncmp left right n = 0 ↔ text n left = text n right := by
  induction n generalizing left right with
  | zero => simp [strncmp, text]
  | succ n ih =>
      by_cases same : left 0 = right 0
      · by_cases ended : right 0 = 0
        · simp [strncmp, text, same, ended]
        · simp [strncmp, text, same, ended, ih]
      · have differ : ((left 0).toNat : Int) - (right 0).toNat ≠ 0 := by
          intro equal
          apply same
          apply UInt8.toNat_inj.mp
          omega
        have texts : text (n + 1) left ≠ text (n + 1) right := by
          intro equal
          by_cases leftEnd : left 0 = 0 <;> by_cases rightEnd : right 0 = 0 <;>
            simp_all [text]
        simp [strncmp, same, differ, texts]

/-- A fixed-size `char` array. -/
abbrev CharArray (n : Nat) := { bytes : List UInt8 // bytes.length = n }

theorem length_strncpyBytes (source : Pointer) (n : Nat) :
    (strncpyBytes source n).length = n := by
  induction n generalizing source with
  | zero => rfl
  | succ n ih =>
      by_cases ended : source 0 = 0
      · simp [strncpyBytes, ended]
      · simp [strncpyBytes, ended, ih]

/-- `strncpy(destination, source, n)` into an array of `n` bytes. -/
def strncpy (source : Pointer) (n : Nat) : CharArray n :=
  ⟨strncpyBytes source n, length_strncpyBytes source n⟩

namespace CharArray

variable {n : Nat}

/-- The all-zero array. -/
def zero (n : Nat) : CharArray n := ⟨List.replicate n 0, by simp⟩

/-- The array's address. Only the first `n` bytes belong to the array. -/
def pointer (array : CharArray n) : Pointer := Pointer.ofList array.1

/-- The string an array holds, which need not be NUL-terminated. -/
def string (array : CharArray n) : List UInt8 := text n array.pointer

end CharArray

theorem text_ofList_strncpyBytes (source : Pointer) (n : Nat) :
    text n (Pointer.ofList (strncpyBytes source n)) = text n source := by
  induction n generalizing source with
  | zero => rfl
  | succ n ih =>
      by_cases ended : source 0 = 0
      · simp [strncpyBytes, text, ended, List.replicate_succ]
      · simp [strncpyBytes, text, ended, ih]

/-- Copying keeps the bounded text. -/
@[simp] theorem string_strncpy (source : Pointer) (n : Nat) :
    (strncpy source n).string = text n source :=
  text_ofList_strncpyBytes source n

/-- What `strncpy` stores: the bounded text, and NULs up to the end of the array. -/
theorem strncpyBytes_eq (source : Pointer) (n : Nat) :
    strncpyBytes source n =
      text n source ++ List.replicate (n - (text n source).length) 0 := by
  induction n generalizing source with
  | zero => rfl
  | succ n ih =>
      by_cases ended : source 0 = 0
      · simp [strncpyBytes, text, ended]
      · simp [strncpyBytes, text, ended, ih]

/-- An array whose bytes behind its string are all NULs. -/
def CharArray.Padded {n : Nat} (array : CharArray n) : Prop :=
  array.1 = array.string ++ List.replicate (n - array.string.length) 0

theorem CharArray.padded_strncpy (source : Pointer) (n : Nat) : (strncpy source n).Padded := by
  rw [CharArray.Padded, string_strncpy]
  exact strncpyBytes_eq source n

/-- `strncpy` sees no more of its source than the bounded text. -/
theorem strncpy_congr {left right : Pointer} {n : Nat} (same : text n left = text n right) :
    strncpy left n = strncpy right n := by
  apply Subtype.ext
  change strncpyBytes left n = strncpyBytes right n
  induction n generalizing left right with
  | zero => rfl
  | succ n ih =>
      simp only [text] at same
      by_cases leftEnd : left 0 = 0 <;> by_cases rightEnd : right 0 = 0 <;>
        simp only [leftEnd, rightEnd, if_true, if_false, reduceCtorEq, List.cons.injEq] at same
      · simp [strncpyBytes, leftEnd, rightEnd]
      · simp [strncpyBytes, rightEnd, same.1, ih same.2]

/-- Reading an array through its address is reading its string. -/
@[simp] theorem text_pointer {n : Nat} (array : CharArray n) :
    text n array.pointer = array.string := rfl

/-- The text of a NUL-terminated buffer without inner NULs is its leading bytes. -/
theorem text_ofList {bytes : List UInt8} (clean : ∀ byte ∈ bytes, byte ≠ 0) (n : Nat) :
    text n (Pointer.ofList bytes) = bytes.take n := by
  induction bytes generalizing n with
  | nil => cases n <;> simp [text]
  | cons byte rest ih =>
      cases n with
      | zero => rfl
      | succ n =>
          have head : byte ≠ 0 := clean byte List.mem_cons_self
          have tail := ih (fun other member => clean other (List.mem_cons_of_mem _ member)) n
          simp [text, head, tail]

theorem ne_zero_of_mem_text {n : Nat} {p : Pointer} {byte : UInt8} (member : byte ∈ text n p) :
    byte ≠ 0 := by
  induction n generalizing p with
  | zero => cases member
  | succ n ih =>
      by_cases ended : p 0 = 0
      · simp [text, ended] at member
      · simp only [text, ended, if_false, List.mem_cons] at member
        rcases member with rfl | rest
        · exact ended
        · exact ih rest

theorem length_text (n : Nat) (p : Pointer) : (text n p).length = strnlen p n := by
  induction n generalizing p with
  | zero => rfl
  | succ n ih => by_cases ended : p 0 = 0 <;> simp [text, strnlen, ended, ih]

theorem strnlen_le (n : Nat) (p : Pointer) : strnlen p n ≤ n := by
  induction n generalizing p with
  | zero => exact Nat.le_refl _
  | succ n ih =>
      by_cases ended : p 0 = 0
      · simp [strnlen, ended]
      · simp [strnlen, ended, ih]

/-- A text sent as a NUL-terminated string arrives as it was. -/
@[simp] theorem text_ofList_text (n : Nat) (p : Pointer) :
    text n (Pointer.ofList (text n p)) = text n p := by
  rw [text_ofList (fun _ member => ne_zero_of_mem_text member) n]
  apply List.take_of_length_le
  rw [length_text]
  exact strnlen_le n p

/-- `std::string_view`: an address and a length. Nothing says what follows the
viewed characters in memory. -/
structure StringView where
  data : Pointer
  size : Nat

namespace StringView

/-- The viewed characters. -/
def chars (view : StringView) : List UInt8 := (List.range view.size).map view.data

/-- The view of a `std::string` or a literal, whose buffer is NUL-terminated. -/
def ofList (bytes : List UInt8) : StringView := ⟨Pointer.ofList bytes, bytes.length⟩

/-- The view of a field that stops at its first NUL shows the field's text. -/
theorem chars_strnlen (p : Pointer) (n : Nat) : chars ⟨p, strnlen p n⟩ = text n p := by
  simp only [chars]
  induction n generalizing p with
  | zero => rfl
  | succ n ih =>
      by_cases ended : p 0 = 0
      · simp [text, strnlen, ended]
      · simp only [text, strnlen, ended, if_false, List.range_succ_eq_map, List.map_cons,
          List.map_map, ← ih]
        rfl

end StringView

/-- The bytes an `n`-byte field reads from a view are the view's own leading
characters exactly when none of these is a NUL and a shorter view is terminated. -/
theorem text_eq_take_chars_iff {view : StringView} {n : Nat} :
    text n view.data = view.chars.take n ↔
      (∀ index < min n view.size, view.data index ≠ 0) ∧
        (view.size < n → view.data view.size = 0) := by
  obtain ⟨data, size⟩ := view
  simp only [StringView.chars]
  induction n generalizing data size with
  | zero => simp [text]
  | succ n ih =>
      cases size with
      | zero => by_cases ended : data 0 = 0 <;> simp [text, ended]
      | succ size =>
          have shifted : (List.range (size + 1)).map data =
              data 0 :: (List.range size).map data.tail := by
            rw [List.range_succ_eq_map, List.map_cons, List.map_map]
            rfl
          rw [shifted, List.take_succ_cons, Nat.add_min_add_right]
          by_cases ended : data 0 = 0
          · simp only [text, ended, if_true, reduceCtorEq, false_iff]
            rintro ⟨clean, _⟩
            exact clean 0 (Nat.succ_pos _) ended
          · simp only [text, ended, if_false, List.cons.injEq, true_and, ih]
            apply and_congr
            · constructor
              · intro clean index below
                cases index with
                | zero => exact ended
                | succ index => exact clean index (Nat.lt_of_succ_lt_succ below)
              · exact fun clean index below => clean (index + 1) (Nat.succ_lt_succ below)
            · rw [Nat.add_lt_add_iff_right]
              rfl

/-- The memory behind the viewed characters. -/
def StringView.behind (view : StringView) : Pointer := fun index => view.data (view.size + index)

/-- A view whose characters contain no NUL. -/
def StringView.Clean (view : StringView) : Prop := ∀ index < view.size, view.data index ≠ 0

/-- What a reader of `n` bytes sees of a view that contains no NUL: its characters, and as much
of the string behind them as there is room for. -/
theorem StringView.text_data {view : StringView} (clean : view.Clean) (n : Nat) :
    text n view.data = view.chars.take n ++ text (n - view.size) view.behind := by
  obtain ⟨data, size⟩ := view
  induction n generalizing data size with
  | zero => simp [text]
  | succ n ih =>
      cases size with
      | zero =>
          have all : behind ⟨data, 0⟩ = data := by
            funext index
            simp [behind]
          simp [StringView.chars, all]
      | succ size =>
          have head : data 0 ≠ 0 := clean 0 (Nat.succ_pos _)
          have rest := ih data.tail size fun index below =>
            clean (index + 1) (Nat.succ_lt_succ below)
          have shifted : StringView.chars ⟨data, size + 1⟩ =
              data 0 :: StringView.chars ⟨data.tail, size⟩ := by
            rw [StringView.chars, List.range_succ_eq_map, List.map_cons, List.map_map]
            rfl
          have behindTail : behind ⟨data, size + 1⟩ = behind ⟨data.tail, size⟩ := by
            funext index
            simp [behind, Pointer.tail, Nat.add_right_comm]
          rw [shifted, behindTail, List.take_succ_cons, Nat.add_sub_add_right, List.cons_append,
            ← rest]
          simp [text, head]

/-- The bytes of an ASCII literal. -/
def ascii (literal : String) : List UInt8 := literal.toList.map Char.toUInt8

/-- `std::to_string` of an unsigned integer. -/
def toDecimal (value : Nat) : List UInt8 := (Nat.toDigits 10 value).map Char.toUInt8

private theorem digit_bounds {digit : Char} (isDigit : digit.isDigit) :
    48 ≤ digit.toNat ∧ digit.toNat ≤ 57 := by
  simp only [Char.isDigit, Bool.and_eq_true, decide_eq_true_eq, ge_iff_le,
    UInt32.le_iff_toNat_le] at isDigit
  simpa using isDigit

private theorem toNat_toUInt8_of_digit {digit : Char} (isDigit : digit.isDigit) :
    digit.toUInt8.toNat = digit.toNat := by
  have bounds := digit_bounds isDigit
  simp only [Char.toUInt8, UInt32.toNat_toUInt8]
  exact Nat.mod_eq_of_lt (by simp; omega)

/-- Decimal rendering loses nothing. -/
theorem toDecimal_injective : Function.Injective toDecimal := by
  intro left right equal
  have recover : ∀ value, (toDecimal value).map (fun byte => Char.ofNat byte.toNat) =
      Nat.toDigits 10 value := by
    intro value
    simp only [toDecimal, List.map_map]
    apply (List.map_congr_left _).trans (List.map_id _)
    intro digit member
    have isDigit := Nat.isDigit_of_mem_toDigits (by decide) (by decide) member
    simp [toNat_toUInt8_of_digit isDigit]
  have digits : Nat.toDigits 10 left = Nat.toDigits 10 right := by
    rw [← recover, ← recover, equal]
  rw [← @Nat.ofDigitChars_ten_toDigits left, digits, Nat.ofDigitChars_ten_toDigits]

/-- No digit is a NUL. -/
theorem toDecimal_ne_zero {value : Nat} {byte : UInt8} (member : byte ∈ toDecimal value) :
    byte ≠ 0 := by
  obtain ⟨digit, inDigits, rfl⟩ := List.mem_map.mp member
  have isDigit := Nat.isDigit_of_mem_toDigits (by decide) (by decide) inDigits
  intro equal
  have bounds := digit_bounds isDigit
  have asNat := toNat_toUInt8_of_digit isDigit
  rw [equal] at asNat
  simp at asNat
  omega

theorem length_toDecimal_le_iff {value k : Nat} (positive : 0 < k) :
    (toDecimal value).length ≤ k ↔ value < 10 ^ k := by
  rw [toDecimal, List.length_map]
  exact Nat.length_toDigits_le_iff (by decide) positive

/-- The leading digits of a number are the rendering of a smaller one. -/
theorem exists_toDecimal_eq_take (value : Nat) {k : Nat} (positive : 0 < k) :
    ∃ leading ≤ value, leading < 10 ^ k ∧ toDecimal leading = (toDecimal value).take k := by
  induction value using Nat.strong_induction_on with
  | _ value ih =>
      by_cases short : value < 10 ^ k
      · have few := (length_toDecimal_le_iff positive).mpr short
        exact ⟨value, Nat.le_refl _, short, (List.take_of_length_le few).symm⟩
      · have ten : 10 ≤ value := by
          have : 10 ^ 1 ≤ 10 ^ k := Nat.pow_le_pow_right (by decide) positive
          omega
        obtain ⟨leading, below, bound, same⟩ := ih (value / 10) (by omega)
        have unitsDigit : toDecimal value =
            toDecimal (value / 10) ++ [(Nat.digitChar (value % 10)).toUInt8] := by
          simp [toDecimal, Nat.toDigits_of_base_le (by decide : 1 < 10) ten]
        have many : k ≤ (toDecimal (value / 10)).length := by
          have longer : ¬(toDecimal value).length ≤ k := by
            rwa [length_toDecimal_le_iff positive]
          rw [unitsDigit, List.length_append, List.length_singleton] at longer
          omega
        refine ⟨leading, by omega, bound, ?_⟩
        rw [same, unitsDigit, List.take_append_of_le_length many]

end Hft.Logical
