import ShardKv.Foundations.ByteReader

/-!
# Fields of native frames

The bodies of native requests and responses are made of fixed-width words, of byte
strings with their length in front, and of counted lists of these. Compact lists
write their lengths in base 128, lowest digits first.
-/
namespace ShardKv.FastField

open List Nat
variable {value shift : ℕ} {field : String}

def fastMaxCollectionItems : ℕ := 65536

section

variable (field)

def takeExactSlice (len : ℕ) (field : String) : ByteReader Bytes := fun body =>
  if body.length < len then .error s!"{field} length does not match body"
  else .ok (body.take len, body.drop len)

def takeWord (width : ℕ) (field : String) : ByteReader ℕ := fun body =>
  if body.length < width then .error s!"{field} is truncated"
  else .ok (leValue (body.take width), body.drop width)

def takeU32 : ByteReader UInt32 := UInt32.ofNat <$> takeWord 4 field

def takeU64 : ByteReader UInt64 := UInt64.ofNat <$> takeWord 8 field

def takeI64 : ByteReader Int64 := UInt64.toInt64 <$> takeU64 field

/-- A length field, as the number of bytes it announces. -/
def takeLen : ByteReader ℕ := UInt32.toNat <$> takeU32 field

def takeLenPrefixedSlice : ByteReader Bytes := do
  let len ← takeLen field
  takeExactSlice len field

def takeKeyValue : ByteReader (Bytes × Bytes) := do
  let keyLen ← takeLen field
  let valueLen ← takeLen field
  let key ← takeExactSlice keyLen field
  let value ← takeExactSlice valueLen field
  return (key, value)

def takeKeyField : ByteReader (Bytes × Bytes) := takeKeyValue field

def takeKeyFieldValue : ByteReader (Bytes × Bytes × Bytes) := do
  let keyLen ← takeLen field
  let fieldLen ← takeLen field
  let valueLen ← takeLen field
  let key ← takeExactSlice keyLen field
  let member ← takeExactSlice fieldLen field
  let value ← takeExactSlice valueLen field
  return (key, member, value)

/-- Refuses counts that the limit, or the bytes that are left, do not allow. -/
def checkCount (count minItemLen : ℕ) (field : String) : ByteReader Unit := fun body =>
  if count > fastMaxCollectionItems ∨ count > body.length / minItemLen then
    .error s!"{field} count exceeds remaining body"
  else .ok ((), body)

/-- A count, checked before anything is reserved for it, and as many items. -/
def takeList {α : Type} (takeCount : ByteReader ℕ) (minItemLen : ℕ) (takeItem : ByteReader α)
    (field : String) : ByteReader (List α) := do
  let count ← takeCount
  checkCount count minItemLen field
  replicateM takeItem count

def takeLenPrefixedList : ByteReader (List Bytes) :=
  takeList (takeLen field) 4 (takeLenPrefixedSlice field) field

def takeKeyList : ByteReader (Bytes × List Bytes) := do
  let key ← takeLenPrefixedSlice field
  let values ← takeLenPrefixedList field
  return (key, values)

def takeKeyValueList : ByteReader (List (Bytes × Bytes)) :=
  takeList (takeLen field) 8 (takeKeyValue field) field

/-- The rounds that are left of the loop of `take_var_u32`. The accumulator has 32 bits: shifting a
digit into it drops the bits that do not fit. -/
def takeVarLoop (field : String) : ℕ → ℕ → ℕ → ByteReader ℕ
  | 0, _, _ => fun _ => .error s!"{field} varint is too large"
  | rounds + 1, value, shift => fun body =>
    match body with
    | [] => .error s!"{field} varint is truncated"
    | byte :: body =>
      let value := value ||| ((byte.toNat % 128) <<< shift) % 2 ^ 32
      if byte.toNat < 128 then .ok (value, body)
      else takeVarLoop field rounds value (shift + 7) body

def takeVarU32 : ByteReader ℕ := takeVarLoop field 5 0 0

def takeCompactLenPrefixedSlice : ByteReader Bytes := do
  let len ← takeVarU32 field
  takeExactSlice len field

def takeCompactLenPrefixedList : ByteReader (List Bytes) :=
  takeList (takeVarU32 field) 1 (takeCompactLenPrefixedSlice field) field

end

def encodeLenPrefixed (value : Bytes) : Bytes := leBytes 4 value.length ++ value

def encodeKeyValue (item : Bytes × Bytes) : Bytes :=
  leBytes 4 item.1.length ++ leBytes 4 item.2.length ++ item.1 ++ item.2

def encodeKeyField (key field : Bytes) : Bytes := encodeKeyValue (key, field)

def encodeKeyFieldValue (key field value : Bytes) : Bytes :=
  leBytes 4 key.length ++ leBytes 4 field.length ++ leBytes 4 value.length ++ key ++ field ++ value

def encodeLenPrefixedList (values : List Bytes) : Bytes :=
  leBytes 4 values.length ++ values.flatMap encodeLenPrefixed

def encodeKeyList (key : Bytes) (values : List Bytes) : Bytes :=
  encodeLenPrefixed key ++ encodeLenPrefixedList values

def encodeKeyValueList (items : List (Bytes × Bytes)) : Bytes :=
  leBytes 4 items.length ++ items.flatMap encodeKeyValue

/-- The digits of a number in base 128, with the high bit on all but the last. -/
def encodeVar (value : ℕ) : Bytes :=
  if value < 128 then [value.toUInt8] else (value % 128 + 128).toUInt8 :: encodeVar (value / 128)

def encodeVarU32 (value : ℕ) : Bytes := encodeVar (value % 2 ^ 32)

def encodeCompactLenPrefixed (value : Bytes) : Bytes := encodeVarU32 value.length ++ value

def encodeCompactLenPrefixedList (values : List Bytes) : Bytes :=
  encodeVarU32 values.length ++ values.flatMap encodeCompactLenPrefixed

/-- The header of a frame: four bytes and the length of the body, in 32 bits whatever it is. -/
def fastHeader (magic version code flags : UInt8) (bodyLen : ℕ) : Bytes :=
  [magic, version, code, flags] ++ leBytes 4 bodyLen

section Header

variable (magic version code flags : UInt8) (n : ℕ) (tail : Bytes)

@[simp] theorem length_fastHeader : (fastHeader magic version code flags n).length = 8 := by
  simp [fastHeader]

@[simp] theorem fastHeader_magic :
    (fastHeader magic version code flags n ++ tail).getD 0 0 = magic := rfl

@[simp] theorem fastHeader_version :
    (fastHeader magic version code flags n ++ tail).getD 1 0 = version := rfl

@[simp] theorem fastHeader_code :
    (fastHeader magic version code flags n ++ tail).getD 2 0 = code := rfl

@[simp] theorem fastHeader_flags :
    (fastHeader magic version code flags n ++ tail).getD 3 0 = flags := rfl

@[simp] theorem fastHeader_bodyLen :
    leValue (byteSlice (fastHeader magic version code flags n ++ tail) 4 4) = n % 2 ^ 32 := by
  rw [fastHeader, append_assoc, byteSlice_append_right _ (by simp)]
  show leValue (byteSlice (leBytes 4 n ++ tail) 0 4) = _
  rw [byteSlice_append_zero _ (length_leBytes 4 n)]
  exact leValue_leBytes 4 n

@[simp] theorem fastHeader_body (len : ℕ) :
    byteSlice (fastHeader magic version code flags n ++ tail) 8 len = tail.take len := by
  rw [byteSlice_append_right _ (by simp)]
  simp [byteSlice]

end Header

section RoundTrip

open ByteReader
variable {bytes : Bytes}

theorem reads_takeExactSlice (bytes : Bytes) :
    Reads (takeExactSlice bytes.length field) bytes bytes := by
  intro rest
  rw [takeExactSlice, if_neg (by simp), take_left, drop_left]

theorem reads_takeWord {width n : ℕ} (h : n < 256 ^ width) :
    Reads (takeWord width field) (leBytes width n) n := by
  intro rest
  have hlen := length_leBytes width n
  rw [takeWord, if_neg (by simp), take_left' hlen, drop_left' hlen, leValue_leBytes,
    mod_eq_of_lt h]

theorem reads_takeU32 (value : UInt32) : Reads (takeU32 field) (leBytes 4 value.toNat) value := by
  have h := (reads_takeWord (value.toNat_lt) : Reads (takeWord 4 field) _ _).map UInt32.ofNat
  rwa [UInt32.ofNat_toNat] at h

theorem reads_takeU64 (value : UInt64) : Reads (takeU64 field) (leBytes 8 value.toNat) value := by
  have h := (reads_takeWord (value.toNat_lt) : Reads (takeWord 8 field) _ _).map UInt64.ofNat
  rwa [UInt64.ofNat_toNat] at h

theorem reads_takeI64 (value : Int64) :
    Reads (takeI64 field) (leBytes 8 value.toUInt64.toNat) value :=
  (reads_takeU64 value.toUInt64).map UInt64.toInt64

theorem reads_takeLen {n : ℕ} (h : n < 2 ^ 32) : Reads (takeLen field) (leBytes 4 n) n := by
  have hback : (UInt32.ofNat n).toNat = n := UInt32.toNat_ofNat_of_lt' h
  have hread := (reads_takeU32 (UInt32.ofNat n) : Reads (takeU32 field) _ _).map UInt32.toNat
  rwa [hback] at hread

theorem reads_takeLenPrefixedSlice (h : bytes.length < 2 ^ 32) :
    Reads (takeLenPrefixedSlice field) (encodeLenPrefixed bytes) bytes :=
  (reads_takeLen h).bind (reads_takeExactSlice bytes)

theorem reads_takeKeyValue {item : Bytes × Bytes} (hkey : item.1.length < 2 ^ 32)
    (hvalue : item.2.length < 2 ^ 32) :
    Reads (takeKeyValue field) (encodeKeyValue item) item := by
  have hread : Reads (takeKeyValue field) _ item :=
    (reads_takeLen hkey).bind ((reads_takeLen hvalue).bind ((reads_takeExactSlice item.1).bind
      (reads_takeExactSlice item.2).bindPure))
  simpa only [encodeKeyValue, append_assoc] using hread

theorem reads_takeKeyFieldValue {key member value : Bytes} (hkey : key.length < 2 ^ 32)
    (hmember : member.length < 2 ^ 32) (hvalue : value.length < 2 ^ 32) :
    Reads (takeKeyFieldValue field) (encodeKeyFieldValue key member value) (key, member, value) := by
  have hread : Reads (takeKeyFieldValue field) _ (key, member, value) :=
    (reads_takeLen hkey).bind ((reads_takeLen hmember).bind ((reads_takeLen hvalue).bind
      ((reads_takeExactSlice key).bind ((reads_takeExactSlice member).bind
        (reads_takeExactSlice value).bindPure))))
  simpa only [encodeKeyFieldValue, append_assoc] using hread

/-- A list is read back when its count is allowed and every item is as long as a list item must be:
then the bytes of the items alone cover the count. -/
theorem reads_takeList {α : Type} {takeCount : ByteReader ℕ} {minItemLen : ℕ}
    {takeItem : ByteReader α} {head : Bytes} {encode : α → Bytes} {values : List α}
    (hcount : Reads takeCount head values.length)
    (hitems : ∀ value ∈ values, Reads takeItem (encode value) value)
    (hmin : ∀ value, minItemLen ≤ (encode value).length) (hpos : 0 < minItemLen)
    (hlimit : values.length ≤ fastMaxCollectionItems) :
    Reads (takeList takeCount minItemLen takeItem field) (head ++ values.flatMap encode) values := by
  intro rest
  refine bind_eq_ok.mpr ⟨values.length, values.flatMap encode ++ rest, ?_, ?_⟩
  · rw [append_assoc]
    exact hcount _
  · refine bind_eq_ok.mpr ⟨(), values.flatMap encode ++ rest, ?_, reads_replicate hitems rest⟩
    have hsize := mul_le_length_flatMap hmin values
    have hroom : values.length ≤ (values.flatMap encode ++ rest).length / minItemLen := by
      rw [le_div_iff_mul_le hpos, length_append]
      omega
    rw [checkCount, if_neg (by omega)]

theorem reads_takeLenPrefixedList {values : List Bytes}
    (hlimit : values.length ≤ fastMaxCollectionItems)
    (hitems : ∀ value ∈ values, value.length < 2 ^ 32) :
    Reads (takeLenPrefixedList field) (encodeLenPrefixedList values) values := by
  refine reads_takeList (reads_takeLen ?_) (fun value hvalue =>
    reads_takeLenPrefixedSlice (hitems value hvalue)) (fun value => ?_) (by decide) hlimit
  · rw [fastMaxCollectionItems] at hlimit
    omega
  · simp [encodeLenPrefixed]

theorem reads_takeKeyList {key : Bytes} {values : List Bytes} (hkey : key.length < 2 ^ 32)
    (hlimit : values.length ≤ fastMaxCollectionItems)
    (hitems : ∀ value ∈ values, value.length < 2 ^ 32) :
    Reads (takeKeyList field) (encodeKeyList key values) (key, values) :=
  (reads_takeLenPrefixedSlice hkey).bind (reads_takeLenPrefixedList hlimit hitems).bindPure

theorem reads_takeKeyValueList {items : List (Bytes × Bytes)}
    (hlimit : items.length ≤ fastMaxCollectionItems)
    (hitems : ∀ item ∈ items, item.1.length < 2 ^ 32 ∧ item.2.length < 2 ^ 32) :
    Reads (takeKeyValueList field) (encodeKeyValueList items) items := by
  refine reads_takeList (reads_takeLen ?_) (fun item hitem =>
    reads_takeKeyValue (hitems item hitem).1 (hitems item hitem).2) (fun item => ?_) (by decide)
    hlimit
  · rw [fastMaxCollectionItems] at hlimit
    omega
  · simp [encodeKeyValue]
    omega

end RoundTrip

/-- The bytes up to the first without high bit. -/
def varDigits : Bytes → Bytes
  | [] => []
  | byte :: bytes => if byte.toNat < 128 then [byte] else byte :: varDigits bytes

/-- The number that digits of base 128 denote, lowest first. -/
def varValue : Bytes → ℕ
  | [] => 0
  | byte :: bytes => byte.toNat % 128 + 128 * varValue bytes

/-- The number written in base 128 at the front of the input. -/
def varNumber (body : Bytes) : ℕ := varValue (varDigits body)

theorem varNumber_cons (byte : UInt8) (body : Bytes) : varNumber (byte :: body) =
      byte.toNat % 128 + if byte.toNat < 128 then 0 else 128 * varNumber body := by
  rw [varNumber, varDigits]
  split_ifs <;> rfl

/-- Adding a digit to the accumulator, which is still below the weight of the digit. -/
theorem accumulate_digit (digit : ℕ) (hvalue : value < 2 ^ shift) (hshift : shift ≤ 32) :
    value ||| (digit <<< shift) % 2 ^ 32 = (value + 2 ^ shift * digit) % 2 ^ 32 := by
  have hsplit : (2 : ℕ) ^ 32 = 2 ^ shift * 2 ^ (32 - shift) := by
    rw [← pow_add, Nat.add_sub_cancel' hshift]
  have hdigit : (digit <<< shift) % 2 ^ 32 = 2 ^ shift * (digit % 2 ^ (32 - shift)) := by
    rw [Nat.shiftLeft_eq, mul_comm, hsplit, Nat.mul_mod_mul_left]
  rw [hdigit, Nat.or_comm, ← Nat.two_pow_add_eq_or_of_lt hvalue]
  have hlow : value % 2 ^ shift = value := Nat.mod_eq_of_lt hvalue
  rw [hsplit, Nat.mod_mul, Nat.add_mul_mod_self_left, hlow,
    Nat.add_mul_div_left _ _ (Nat.two_pow_pos shift), Nat.div_eq_of_lt hvalue, zero_add, add_comm]

/-- What the loop returns is the number in the input as far as it fits 32 bits. -/
theorem takeVarLoop_value {rounds result : ℕ} {body rest : Bytes} (hshift : shift + 7 * rounds = 35)
    (hvalue : value < 2 ^ shift)
    (h : takeVarLoop field rounds value shift body = .ok (result, rest)) :
    result = (value + 2 ^ shift * varNumber body) % 2 ^ 32 := by
  induction rounds generalizing value shift body with
  | zero => cases h
  | succ rounds ih =>
    cases body with
    | nil => cases h
    | cons byte body =>
      have hdigit : byte.toNat % 128 < 2 ^ 7 := mod_lt _ (by decide)
      have hstep := accumulate_digit (byte.toNat % 128) hvalue (by omega)
      simp only [takeVarLoop, hstep] at h
      rw [varNumber_cons]
      split_ifs at h ⊢ with hlast
      · cases h
        rw [add_zero]
      · cases rounds with
        | zero => cases h
        | succ rounds =>
          have hpow : 2 ^ (shift + 7) = 2 ^ shift * 2 ^ 7 := pow_add ..
          have hnext : value + 2 ^ shift * (byte.toNat % 128) < 2 ^ (shift + 7) := by
            rw [hpow]
            nlinarith
          have hfits : 2 ^ (shift + 7) ≤ 2 ^ 32 := Nat.pow_le_pow_right (by decide) (by omega)
          rw [mod_eq_of_lt (hnext.trans_le hfits)] at h
          rw [ih (by omega) hnext h, hpow]
          congr 1
          ring

/-- The decoder loses the bits of a number above the lowest 32, and only these. -/
theorem takeVarU32_value {result : ℕ} {body rest : Bytes}
    (h : takeVarU32 field body = .ok (result, rest)) : result = varNumber body % 2 ^ 32 := by
  have hvalue := takeVarLoop_value (by decide) (by decide) h
  simpa using hvalue

theorem encodeVar_of_lt (h : value < 128) : encodeVar value = [value.toUInt8] := by
  rw [encodeVar, if_pos h]

/-- One round of the loop for each digit that is left. -/
theorem takeVarLoop_encodeVar {rounds n : ℕ} (rest : Bytes) (hshift : shift + 7 * rounds = 35)
    (hrounds : 0 < rounds) (hvalue : value < 2 ^ shift) (hfits : value + 2 ^ shift * n < 2 ^ 32) :
    takeVarLoop field rounds value shift (encodeVar n ++ rest) =
      .ok (value + 2 ^ shift * n, rest) := by
  induction rounds generalizing value shift n with
  | zero => omega
  | succ rounds ih =>
    rcases lt_or_ge n 128 with hn | hn
    · have hbyte : n.toUInt8.toNat = n := toNat_toUInt8_of_lt (by omega)
      rw [encodeVar_of_lt hn]
      simp only [singleton_append, takeVarLoop, hbyte]
      rw [accumulate_digit _ hvalue (by omega), mod_eq_of_lt hn, mod_eq_of_lt hfits,
        if_pos hn]
    · have hbyte : (n % 128 + 128).toUInt8.toNat = n % 128 + 128 := toNat_toUInt8_of_lt (by omega)
      have hdigit : (n % 128 + 128) % 128 = n % 128 := by omega
      have hn128 : n = n % 128 + 128 * (n / 128) := (mod_add_div n 128).symm
      have hpow : 2 ^ (shift + 7) = 2 ^ shift * 2 ^ 7 := pow_add ..
      have hlow : n % 128 < 2 ^ 7 := mod_lt _ (by decide)
      have hsum : value + 2 ^ shift * (n % 128) + 2 ^ (shift + 7) * (n / 128) =
          value + 2 ^ shift * n := by
        rw [hpow]
        nth_rewrite 3 [hn128]
        ring
      have hnext : value + 2 ^ shift * (n % 128) < 2 ^ (shift + 7) := by
        rw [hpow]
        nlinarith
      -- A digit remains, so its weight is still below the width of the accumulator.
      have hweight : 2 ^ (shift + 7) * 1 ≤ 2 ^ (shift + 7) * (n / 128) :=
        mul_le_mul_left _ (by omega)
      have hmore : shift + 7 < 32 := (Nat.pow_lt_pow_iff_right (by decide : 1 < 2)).mp (by omega)
      rw [encodeVar, if_neg (by omega)]
      simp only [cons_append, takeVarLoop, hbyte, hdigit]
      rw [accumulate_digit _ hvalue (by omega), if_neg (by omega),
        mod_eq_of_lt (by omega : value + 2 ^ shift * (n % 128) < 2 ^ 32),
        ih (by omega) (by omega) hnext (by omega), hsum]

section Compact

open ByteReader

theorem reads_takeVarU32 {n : ℕ} (h : n < 2 ^ 32) :
    Reads (takeVarU32 field) (encodeVarU32 n) n := by
  intro rest
  have hread : takeVarLoop field 5 0 0 (encodeVar n ++ rest) = .ok (0 + 2 ^ 0 * n, rest) :=
    takeVarLoop_encodeVar rest (by decide) (by decide) (by decide) (by omega)
  rw [zero_add, pow_zero, one_mul] at hread
  rw [encodeVarU32, mod_eq_of_lt h]
  exact hread

theorem reads_takeCompactLenPrefixedList {values : List Bytes}
    (hlimit : values.length ≤ fastMaxCollectionItems)
    (hitems : ∀ value ∈ values, value.length < 2 ^ 32) :
    Reads (takeCompactLenPrefixedList field) (encodeCompactLenPrefixedList values) values := by
  refine reads_takeList (reads_takeVarU32 ?_) (fun value hvalue =>
    (reads_takeVarU32 (hitems value hvalue)).bind (reads_takeExactSlice value)) (fun value => ?_)
    (by decide) hlimit
  · rw [fastMaxCollectionItems] at hlimit
    omega
  · have hne : 0 < (encodeVarU32 value.length).length := by
      rw [encodeVarU32, encodeVar]
      split_ifs <;> simp
    rw [encodeCompactLenPrefixed, length_append]
    omega

end Compact

section Slices

open ByteReader
variable {known : List Bytes}

theorem within_takeExactSlice (len : ℕ) :
    Within [] (takeExactSlice len field) fun slice => [slice] := by
  intro body slice rest h
  rw [takeExactSlice] at h
  split_ifs at h
  cases h
  refine ⟨body.take len, (take_append_drop len body).symm, fun piece hpiece => ?_⟩
  rw [mem_singleton.mp hpiece]
  exact .inr (infix_refl _)

theorem within_takeWord (width : ℕ) : Within [] (takeWord width field) fun _ => [] := by
  intro body word rest h
  rw [takeWord] at h
  split_ifs at h
  cases h
  exact ⟨body.take width, (take_append_drop width body).symm, nofun⟩

theorem within_takeU32 : Within [] (takeU32 field) fun _ => [] :=
  (within_takeWord 4).map fun _ _ hpiece => hpiece

theorem within_takeU64 : Within [] (takeU64 field) fun _ => [] :=
  (within_takeWord 8).map fun _ _ hpiece => hpiece

theorem within_takeI64 : Within [] (takeI64 field) fun _ => [] :=
  within_takeU64.map fun _ _ hpiece => hpiece

theorem within_takeLen : Within [] (takeLen field) fun _ => [] :=
  within_takeU32.map fun _ _ hpiece => hpiece

theorem within_takeLenPrefixedSlice : Within [] (takeLenPrefixedSlice field) fun slice => [slice] :=
  within_takeLen.bind fun len => within_takeExactSlice len

theorem within_takeKeyValue : Within [] (takeKeyValue field) fun item => [item.1, item.2] :=
  within_takeLen.bind fun keyLen => within_takeLen.bind fun valueLen =>
    (within_takeExactSlice keyLen).bind fun key => (within_takeExactSlice valueLen).bind fun value =>
      within_pure (by simp)

theorem within_takeKeyFieldValue :
    Within [] (takeKeyFieldValue field) fun item => [item.1, item.2.1, item.2.2] :=
  within_takeLen.bind fun keyLen => within_takeLen.bind fun fieldLen =>
    within_takeLen.bind fun valueLen => (within_takeExactSlice keyLen).bind fun key =>
      (within_takeExactSlice fieldLen).bind fun member =>
        (within_takeExactSlice valueLen).bind fun value => within_pure (by simp)

theorem within_checkCount (count minItemLen : ℕ) :
    Within [] (checkCount count minItemLen field) fun _ => [] := by
  intro body value rest h
  rw [checkCount] at h
  split_ifs at h
  cases h
  exact ⟨[], rfl, nofun⟩

theorem within_takeList {α : Type} {takeCount : ByteReader ℕ} {minItemLen : ℕ}
    {takeItem : ByteReader α} {pieces : α → List Bytes}
    (hcount : Within [] takeCount fun _ => []) (hitem : Within [] takeItem pieces) :
    Within [] (takeList takeCount minItemLen takeItem field) fun values =>
      values.flatMap pieces :=
  hcount.bind fun count => (within_checkCount count minItemLen).bind fun _ =>
    within_replicate hitem count

theorem within_takeLenPrefixedList :
    Within [] (takeLenPrefixedList field) fun values => values := by
  have h : Within [] (takeLenPrefixedList field) fun values => values.flatMap fun slice => [slice] :=
    within_takeList within_takeLen within_takeLenPrefixedSlice
  simpa only [flatMap_singleton'] using h

theorem within_takeKeyList : Within [] (takeKeyList field) fun item => item.1 :: item.2 :=
  within_takeLenPrefixedSlice.bind fun key => within_takeLenPrefixedList.bind fun values =>
    within_pure (by simp +contextual)

theorem within_takeVarLoop (rounds value shift : ℕ) :
    Within [] (takeVarLoop field rounds value shift) fun _ => [] := by
  induction rounds generalizing value shift with
  | zero => exact fun body result rest h => nomatch h
  | succ rounds ih =>
    intro body result rest h
    cases body with
    | nil => cases h
    | cons byte body =>
      simp only [takeVarLoop] at h
      split_ifs at h
      · cases h
        exact ⟨[byte], rfl, nofun⟩
      · obtain ⟨used, rfl, -⟩ := ih _ _ body result rest h
        exact ⟨byte :: used, rfl, nofun⟩

theorem within_takeCompactLenPrefixedList :
    Within [] (takeCompactLenPrefixedList field) fun values => values := by
  have hslice : Within [] (takeCompactLenPrefixedSlice field) fun slice => [slice] :=
    (within_takeVarLoop 5 0 0).bind fun len => within_takeExactSlice len
  have h : Within [] (takeCompactLenPrefixedList field) fun values =>
      values.flatMap fun slice => [slice] := within_takeList (within_takeVarLoop 5 0 0) hslice
  simpa only [flatMap_singleton'] using h

end Slices
end ShardKv.FastField
