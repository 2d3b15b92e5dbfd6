import ShardKv.Foundations.Bytes

/-!
# The checksum of dumped values

Long payloads are read eight bytes at a time, with a table for each place of a byte in the word.
The result is that of going through the bits one by one: a step is additive over exclusive or, and
steps over bits that are not set only shift.
-/
namespace ShardKv.Crc64Jones

open BitVec Function
variable (crc : BitVec 64)

/-- The reflected polynomial. -/
def polyReflected : BitVec 64 := 0x95ac9329ac4bc9b5

/-- One bit of the loop that makes the first table. -/
def step : BitVec 64 := if crc &&& 1#64 = 0#64 then crc >>> 1 else (crc >>> 1) ^^^ polyReflected

/-- The first table, at an index below 256. -/
def firstTable (index : BitVec 64) : BitVec 64 := step^[8] index

def tables : ℕ → BitVec 64 → BitVec 64
  | 0, index => firstTable index
  | place + 1, index =>
    let previous := tables place index
    (previous >>> 8) ^^^ firstTable (previous &&& 0xff#64)

variable (bytes : Bytes)

/-- Up to eight bytes as a word, lowest first. -/
def word : BitVec 64 := .ofNat 64 (leValue bytes)

variable (byte : UInt8)

def byteStep : BitVec 64 :=
  tables 0 ((crc &&& 0xff#64) ^^^ word [byte]) ^^^ (crc >>> 8)

/-- The bytes of a word, lowest first, each in the table of its place. -/
def lookups : ℕ → BitVec 64 → BitVec 64
  | 0, crc => tables 0 (crc &&& 0xff#64)
  | place + 1, crc => tables (place + 1) (crc &&& 0xff#64) ^^^ lookups place (crc >>> 8)

/-- The loop over the chunks, then the remainder. -/
def chunks : ℕ → BitVec 64 → Bytes → BitVec 64
  | 0, crc, remainder => remainder.foldl byteStep crc
  | count + 1, crc, bytes =>
    chunks count (lookups 7 (crc ^^^ word (bytes.take 8))) (bytes.drop 8)

def bytewise : BitVec 64 := bytes.foldl byteStep crc

def crc64Jones : BitVec 64 :=
  if bytes.length < 64 then bytewise crc bytes else chunks (bytes.length / 8) crc bytes

/-- The definition: a byte at a time, one bit after the other. -/
def bitwise : BitVec 64 :=
  bytes.foldl (fun crc byte => step^[8] (crc ^^^ word [byte])) crc

theorem step_eq : step crc = (crc >>> 1) ^^^ if crc.getLsbD 0 then polyReflected else 0#64 := by
  have hbit : crc &&& 1#64 = 0#64 ↔ crc.getLsbD 0 = false := by
    rw [and_one_eq_setWidth_ofBool_getLsbD]
    cases crc.getLsbD 0 <;> decide
  rw [step]
  cases h : crc.getLsbD 0 with
  | false => rw [if_pos (hbit.mpr h), if_neg Bool.false_ne_true, xor_zero]
  | true => rw [if_neg (by rw [hbit, h]; decide), if_pos rfl]

theorem step_xor (left right : BitVec 64) : step (left ^^^ right) = step left ^^^ step right := by
  have hpoly : ∀ a b, (if a ^^ b then polyReflected else 0#64) =
      (if a then polyReflected else 0#64) ^^^ if b then polyReflected else 0#64 := by decide
  rw [step_eq, getLsbD_xor, ushiftRight_xor_distrib, hpoly, step_eq, step_eq]
  ac_rfl

theorem steps_xor (left right : BitVec 64) (n : ℕ) :
    step^[n] (left ^^^ right) = step^[n] left ^^^ step^[n] right := by
  induction n generalizing left right with
  | zero => rfl
  | succ n ih => rw [iterate_succ_apply, step_xor, ih, iterate_succ_apply, iterate_succ_apply]

/-- Steps over bits that are not set only shift. -/
theorem steps_eq_shift {n : ℕ} {crc : BitVec 64} (h : ∀ i < n, crc.getLsbD i = false) :
    step^[n] crc = crc >>> n := by
  induction n generalizing crc with
  | zero => simp
  | succ n ih =>
    have hshift : step crc = crc >>> 1 := by
      rw [step_eq, h 0 (by omega)]
      simp
    have hrest : ∀ i < n, (crc >>> 1).getLsbD i = false := by
      intro i hi
      rw [getLsbD_ushiftRight]
      exact h (1 + i) (by omega)
    rw [iterate_succ_apply, hshift, ih hrest, ← shiftRight_add, Nat.add_comm]

theorem getElem_mask {i : ℕ} (hi : i < 64) : (0xff#64)[i] = decide (i < 8) := by
  rw [getElem_eq_testBit_toNat]
  exact Nat.testBit_two_pow_sub_one 8 i

/-- Eight steps over a word are a look at its lowest byte. -/
theorem eight_steps : step^[8] crc = (crc >>> 8) ^^^ firstTable (crc &&& 0xff#64) := by
  have hsplit : crc = (crc >>> 8 <<< 8) ^^^ (crc &&& 0xff#64) := by
    apply eq_of_getLsbD_eq
    intro i hi
    by_cases hlow : i < 8
    · simp [getElem_mask, hlow, hi]
    · simp [getElem_mask, hlow, hi, Nat.add_sub_cancel' (Nat.le_of_not_lt hlow)]
  have hhigh : step^[8] (crc >>> 8 <<< 8) = crc >>> 8 := by
    rw [steps_eq_shift (by simp +contextual)]
    apply eq_of_getLsbD_eq
    intro i hi
    simpa [hi] using lt_of_getLsbD
  nth_rewrite 1 [hsplit]
  rw [steps_xor, hhigh]
  rfl

theorem tables_eq (place : ℕ) (index : BitVec 64) :
    tables place index = step^[8 * (place + 1)] index := by
  induction place with
  | zero => rfl
  | succ place ih =>
    rw [tables, ih, ← eight_steps, ← iterate_add_apply, Nat.mul_add 8 (place + 1), Nat.add_comm]

/-- The tables of a word together make all steps over it. -/
theorem lookups_eq (place : ℕ) {crc : BitVec 64} (h : crc >>> (8 * (place + 1)) = 0#64) :
    lookups place crc = step^[8 * (place + 1)] crc := by
  induction place generalizing crc with
  | zero =>
    rw [Nat.mul_one, eight_steps, h, zero_xor]
    rfl
  | succ place ih =>
    have hrest : lookups place (crc >>> 8) = step^[8 * (place + 1)] (crc >>> 8) := by
      apply ih
      rw [← shiftRight_add, ← h]
      ring_nf
    rw [lookups, hrest, tables_eq, Nat.mul_add 8 (place + 1), iterate_add_apply, iterate_add_apply,
      eight_steps crc, steps_xor]
    exact BitVec.xor_comm _ _

/-- The steps over the first byte of a word leave the others. -/
theorem steps_word {bytes : Bytes} (h : bytes.length < 8) :
    step^[8] (crc ^^^ word (byte :: bytes)) = byteStep crc byte ^^^ word bytes := by
  have hlt : leValue (byte :: bytes) < 2 ^ 64 :=
    (leValue_lt _).trans_le (Nat.pow_le_pow_right (by decide) h)
  have hbyte : byte.toNat < 256 := byte.toNat_lt
  have hhigh : word (byte :: bytes) >>> 8 = word bytes := by
    apply eq_of_toNat_eq
    simp only [word, leValue, toNat_ushiftRight, toNat_ofNat,
      Nat.shiftRight_eq_div_pow] at hlt ⊢
    omega
  have hlow : word (byte :: bytes) &&& 0xff#64 = word [byte] := by
    apply eq_of_toNat_eq
    rw [toNat_and]
    refine (Nat.and_two_pow_sub_one_eq_mod _ 8).trans ?_
    simp only [word, leValue, toNat_ofNat] at hlt ⊢
    omega
  have hmask : (crc ^^^ word (byte :: bytes)) &&& 0xff#64 = (crc &&& 0xff#64) ^^^ word [byte] := by
    rw [← hlow]
    apply eq_of_getElem_eq
    intro i hi
    simp [Bool.and_xor_distrib_right]
  rw [eight_steps, ushiftRight_xor_distrib, hhigh, hmask, byteStep, tables]
  ac_rfl

theorem byteStep_eq : byteStep crc byte = step^[8] (crc ^^^ word [byte]) := by
  rw [steps_word crc byte (by decide)]
  exact (xor_zero).symm

/-- The steps over up to eight bytes are those over their word. -/
theorem bitwise_eq_steps {bytes : Bytes} (h : bytes.length ≤ 8) :
    bitwise crc bytes = step^[8 * bytes.length] (crc ^^^ word bytes) := by
  induction bytes generalizing crc with
  | nil => exact (xor_zero).symm
  | cons byte bytes ih =>
    have hrest : bytes.length < 8 := h
    rw [List.length_cons, Nat.mul_add, iterate_add_apply, Nat.mul_one, steps_word crc byte hrest,
      byteStep_eq, ← ih _ hrest.le]
    rfl

theorem chunks_eq (count : ℕ) {bytes : Bytes} (h : 8 * count ≤ bytes.length) :
    chunks count crc bytes = bitwise crc bytes := by
  induction count generalizing crc bytes with
  | zero => exact congrArg (List.foldl · crc bytes) (funext₂ byteStep_eq)
  | succ count ih =>
    have hlen : (bytes.take 8).length = 8 := by
      rw [List.length_take]
      omega
    have hword := bitwise_eq_steps crc hlen.le
    rw [hlen] at hword
    rw [chunks, ih _ (by rw [List.length_drop]; omega),
      lookups_eq 7 (ushiftRight_eq_zero (by decide)), ← hword, bitwise, bitwise,
      ← List.foldl_append, List.take_append_drop]
    rfl

/-- Reading eight bytes at a time changes nothing. -/
theorem crc64Jones_eq_bitwise (bytes : Bytes) : crc64Jones crc bytes = bitwise crc bytes := by
  unfold crc64Jones
  split_ifs
  · exact chunks_eq crc 0 (Nat.zero_le _)
  · exact chunks_eq crc _ (Nat.mul_div_le _ _)

def rdbVersion : ℕ := 9

/-- A version and the checksum of everything before it stand at the end. -/
def verifyPayload (payload : Bytes) : Except Unit Unit :=
  if payload.length < 10 then .error ()
  else
    let checksumOffset := payload.length - 8
    if rdbVersion < leValue (byteSlice payload (payload.length - 10) 2) then .error ()
    else if crc64Jones 0 (payload.take checksumOffset) = word (payload.drop checksumOffset) then
      .ok ()
    else .error ()

theorem eq_zero_of_step {crc : BitVec 64} (h : step crc = 0#64) : crc = 0#64 := by
  rw [step_eq] at h
  -- the polynomial has the highest bit, which the shift leaves free
  have hlow : crc.getLsbD 0 = false := by
    have htop := congrArg (getLsbD · 63) h
    cases hbit : crc.getLsbD 0 with
    | false => rfl
    | true => simp [hbit, polyReflected, -getLsbD_eq_getElem] at htop
  rw [hlow, if_neg Bool.false_ne_true, xor_zero] at h
  apply eq_of_getLsbD_eq
  intro i hi
  cases i with
  | zero => simpa using hlow
  | succ i => simpa [Nat.add_comm] using congrArg (getLsbD · i) h

theorem step_injective : Injective step := by
  intro left right h
  refine BitVec.xor_eq_zero_iff.mp (eq_zero_of_step ?_)
  rw [step_xor, h, BitVec.xor_self]

theorem bitwise_injective (bytes : Bytes) : Injective (bitwise · bytes) := by
  induction bytes with
  | nil => exact injective_id
  | cons byte bytes ih => exact fun _ _ h => (xor_left_inj _).mp (step_injective.iterate 8 (ih h))

theorem word_injective {left right : Bytes} (hlen : left.length = right.length)
    (hshort : right.length ≤ 8) (h : word left = word right) : left = right := by
  have hlt : ∀ bytes : Bytes, bytes.length ≤ 8 → leValue bytes < 2 ^ 64 := fun bytes hbytes =>
    (leValue_lt bytes).trans_le (Nat.pow_le_pow_right (by decide) hbytes)
  have hvalue := congrArg BitVec.toNat h
  rw [word, word, toNat_ofNat, toNat_ofNat, Nat.mod_eq_of_lt (hlt _ (hlen.le.trans hshort)),
    Nat.mod_eq_of_lt (hlt _ hshort)] at hvalue
  rw [← leBytes_leValue left, hlen, hvalue, leBytes_leValue]

theorem bitwise_append (crc : BitVec 64) (front rest : Bytes) :
    bitwise crc (front ++ rest) = bitwise (bitwise crc front) rest := List.foldl_append ..

/-- The checksum goes on over its own bytes to zero. -/
theorem bitwise_of_verified {payload : Bytes} (h : verifyPayload payload = .ok ()) :
    bitwise 0 payload = 0#64 := by
  simp only [verifyPayload] at h
  split_ifs at h with hshort hversion hsum
  have hlen : (payload.drop (payload.length - 8)).length = 8 := by
    rw [List.length_drop]
    omega
  have hcrc : bitwise 0 (payload.take (payload.length - 8)) =
      word (payload.drop (payload.length - 8)) := by
    rw [← hsum, crc64Jones]
    split_ifs
    · exact (chunks_eq 0 0 (Nat.zero_le _)).symm
    · exact (chunks_eq 0 _ (Nat.mul_div_le _ _)).symm
  rw [← List.take_append_drop (payload.length - 8) payload, bitwise_append, hcrc,
    bitwise_eq_steps _ hlen.le, BitVec.xor_self, steps_eq_shift (by simp), zero_ushiftRight]

/-- An accepted payload is refused when some of eight bytes next to each other, of the footer or
not, are changed. -/
theorem verifyPayload_of_burst {before good bad after : Bytes}
    (hok : verifyPayload (before ++ good ++ after) = .ok ()) (hlen : bad.length = good.length)
    (hshort : good.length ≤ 8) (hne : bad ≠ good) :
    verifyPayload (before ++ bad ++ after) = .error () := by
  cases hbad : verifyPayload (before ++ bad ++ after) with
  | error => rfl
  | ok =>
    have hsame := (bitwise_of_verified hbad).trans (bitwise_of_verified hok).symm
    rw [bitwise_append, bitwise_append, bitwise_append, bitwise_append] at hsame
    replace hsame := bitwise_injective after hsame
    rw [bitwise_eq_steps _ (hlen.le.trans hshort), bitwise_eq_steps _ hshort, hlen] at hsame
    exact absurd (word_injective hlen hshort
      ((xor_right_inj _).mp (step_injective.iterate _ hsame))) hne

/-- The dump of `a`, with a `b` in its place. -/
theorem verifyPayload_of_burst_string :
    verifyPayload ([0, 1] ++ [98] ++ [9, 0, 111, 12, 190, 87, 219, 176, 30, 5]) = .error () :=
  verifyPayload_of_burst (show verifyPayload ([0, 1] ++ [97] ++ _) = .ok () by decide +kernel) rfl
    (by decide) (by decide)

end ShardKv.Crc64Jones
