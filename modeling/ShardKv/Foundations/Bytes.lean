import Mathlib.Data.Nat.Digits.Lemmas

/-!
# Byte strings

Byte strings are lists of bytes. Machine buffers carry their size bound, so
that lengths computed from them fit a machine word.
-/
namespace ShardKv

open List
variable {n start len : ℕ} {bytes : Bytes}

abbrev Bytes := List UInt8

instance : LawfulBEq Bytes := inferInstance

/-- A buffer whose length fits a 64-bit word. -/
structure SharedBytes where
  data : Bytes
  size_lt : data.length < 2 ^ 64

def isContinuation (byte : UInt8) : Bool := 0x80 ≤ byte && byte ≤ 0xBF

/-- The second of three bytes: no overlong form and no surrogate. -/
def isSecondOfThree (first second : UInt8) : Bool :=
  if first = 0xE0 then 0xA0 ≤ second && second ≤ 0xBF
  else if first = 0xED then 0x80 ≤ second && second ≤ 0x9F
  else isContinuation second

/-- The second of four bytes: no overlong form and nothing above the last code point. -/
def isSecondOfFour (first second : UInt8) : Bool :=
  if first = 0xF0 then 0x90 ≤ second && second ≤ 0xBF
  else if first = 0xF4 then 0x80 ≤ second && second ≤ 0x8F
  else isContinuation second

/-- What `str::from_utf8` accepts. -/
def isUtf8 : Bytes → Bool
  | [] => true
  | first :: rest =>
    if first < 0x80 then isUtf8 rest
    else match rest with
      | [] => false
      | second :: rest =>
        if 0xC2 ≤ first && first ≤ 0xDF then isContinuation second && isUtf8 rest
        else match rest with
          | [] => false
          | third :: rest =>
            if 0xE0 ≤ first && first ≤ 0xEF then
              isSecondOfThree first second && isContinuation third && isUtf8 rest
            else match rest with
              | [] => false
              | fourth :: rest =>
                0xF0 ≤ first && first ≤ 0xF4 && isSecondOfFour first second &&
                  isContinuation third && isContinuation fourth && isUtf8 rest

theorem toNat_toUInt8_of_lt (h : n < 256) : n.toUInt8.toNat = n := by
  rw [Nat.toUInt8_eq, UInt8.toNat_ofNat', Nat.mod_eq_of_lt h]

/-- The `width` low bytes of a number, lowest first. -/
def leBytes : ℕ → ℕ → Bytes
  | 0, _ => []
  | width + 1, n => n.toUInt8 :: leBytes width (n / 256)

@[simp] theorem length_leBytes (width n : ℕ) : (leBytes width n).length = width := by
  induction width generalizing n with
  | zero => rfl
  | succ width ih => rw [leBytes, length_cons, ih]

/-- The number whose bytes, lowest first, are given. -/
def leValue : Bytes → ℕ
  | [] => 0
  | byte :: bytes => byte.toNat + 256 * leValue bytes

theorem leValue_leBytes (width n : ℕ) : leValue (leBytes width n) = n % 256 ^ width := by
  induction width generalizing n with
  | zero => simp [leBytes, leValue, Nat.mod_one]
  | succ width ih =>
    have hbyte : n.toUInt8.toNat = n % 256 := by simp
    rw [leBytes, leValue, ih, hbyte, pow_succ', Nat.mod_mul]

theorem leValue_leBytes_of_lt {width : ℕ} (h : n < 256 ^ width) :
    leValue (leBytes width n) = n := by
  rw [leValue_leBytes, Nat.mod_eq_of_lt h]

theorem leValue_lt (bytes : Bytes) : leValue bytes < 256 ^ bytes.length := by
  induction bytes with
  | nil => simp [leValue]
  | cons byte bytes ih =>
    have hbyte : byte.toNat < 256 := byte.toNat_lt
    rw [leValue, length_cons, pow_succ']
    omega

/-- The bytes of a number say which number it was: a field is written in one way only. -/
theorem leBytes_leValue (bytes : Bytes) : leBytes bytes.length (leValue bytes) = bytes := by
  induction bytes with
  | nil => rfl
  | cons byte bytes ih =>
    have hbyte : byte.toNat < 256 := byte.toNat_lt
    have hlow : (byte.toNat + 256 * leValue bytes).toUInt8 = byte := by
      apply UInt8.toNat_inj.mp
      simp
    have hhigh : (byte.toNat + 256 * leValue bytes) / 256 = leValue bytes := by omega
    rw [length_cons, leValue, leBytes, hlow, hhigh, ih]

/-- `len` bytes of a string, from position `start` on. -/
def byteSlice (bytes : Bytes) (start len : ℕ) : Bytes := (bytes.drop start).take len

theorem byteSlice_append_right {before : Bytes} (after : Bytes) (h : before.length ≤ start)
    (len : ℕ) :
    byteSlice (before ++ after) start len = byteSlice after (start - before.length) len := by
  rw [byteSlice, byteSlice, drop_append, drop_eq_nil_of_le h, nil_append]

theorem byteSlice_append_zero {field : Bytes} (after : Bytes) (h : field.length = len) :
    byteSlice (field ++ after) 0 len = field := by
  rw [byteSlice, drop_zero, take_left' h]

/-- Reading inside the first part of a string does not depend on what follows. -/
theorem byteSlice_append_left {before : Bytes} (after : Bytes) (h : start + len ≤ before.length) :
    byteSlice (before ++ after) start len = byteSlice before start len := by
  rw [byteSlice, byteSlice, drop_append_of_le_length (by omega),
    take_append_of_le_length (by rw [length_drop]; omega)]

/-- Reading inside an initial part of a string reads the string. -/
theorem byteSlice_take {size : ℕ} (hsize : size ≤ bytes.length) (h : start + len ≤ size) :
    byteSlice (bytes.take size) start len = byteSlice bytes start len := by
  have hsplit := take_append_drop size bytes
  nth_rewrite 2 [← hsplit]
  rw [byteSlice_append_left]
  rw [length_take]
  omega

theorem byteSlice_append_drop (bytes : Bytes) (start len : ℕ) :
    byteSlice bytes start len ++ bytes.drop (start + len) = bytes.drop start := by
  rw [byteSlice, ← drop_drop, take_append_drop]

section

variable (h : start + len ≤ bytes.length)
include h

theorem length_byteSlice : (byteSlice bytes start len).length = len := by
  rw [byteSlice, length_take, length_drop]
  omega

/-- A field that was read as a number is the encoding of that number. -/
theorem leBytes_leValue_byteSlice :
    leBytes len (leValue (byteSlice bytes start len)) = byteSlice bytes start len := by
  have hback := leBytes_leValue (byteSlice bytes start len)
  rwa [length_byteSlice h] at hback

theorem leValue_byteSlice_lt : leValue (byteSlice bytes start len) < 256 ^ len := by
  have hlt := leValue_lt (byteSlice bytes start len)
  rwa [length_byteSlice h] at hlt

end

/-- Items of a least length make the encoding of a list as long as its count requires. -/
theorem mul_le_length_flatMap {α : Type} {encode : α → Bytes} {least : ℕ}
    (h : ∀ value, least ≤ (encode value).length) (values : List α) :
    values.length * least ≤ (values.flatMap encode).length := by
  induction values with
  | nil => simp
  | cons value values ih =>
    have hvalue := h value
    rw [flatMap_cons, length_append, length_cons, Nat.succ_mul]
    omega

theorem length_le_length_flatMap {α : Type} (encode : α → Bytes) {values : List α} {value : α}
    (h : value ∈ values) : (encode value).length ≤ (values.flatMap encode).length := by
  obtain ⟨before, after, rfl⟩ := append_of_mem h
  simp only [flatMap_append, flatMap_cons, length_append]
  omega

/-- The decimal text of a number. -/
def decimalBytes (n : ℕ) : Bytes :=
  if n = 0 then [48] else (Nat.digits 10 n).reverse.map fun digit => (48 + digit).toUInt8

theorem decimalBytes_of_lt (h : n < 10) : decimalBytes n = [(48 + n).toUInt8] := by
  unfold decimalBytes
  split_ifs with h0
  · subst h0
    rfl
  · rw [Nat.digits_of_lt 10 n h0 h]
    rfl

/-- The length of a machine buffer prints in at most twenty digits. -/
theorem length_decimalBytes_le (h : n < 2 ^ 64) : (decimalBytes n).length ≤ 20 := by
  unfold decimalBytes
  split_ifs
  · simp
  · rw [length_map, length_reverse, Nat.digits_length_le_iff (by omega)]
    omega

/-- A counted list of values, in whatever monad the values are read. -/
def replicateM {m : Type → Type} [Monad m] {α : Type} (read : m α) : ℕ → m (List α)
  | 0 => pure []
  | count + 1 => do
    let value ← read
    let values ← replicateM read count
    return value :: values

end ShardKv
