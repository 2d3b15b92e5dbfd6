import ShardKv.Foundations.BudgetReader
import ShardKv.Foundations.FrameLog
import ShardKv.Protocol.Resp

/-!
# Native Redis frames

The server encodes a response tree with a depth, a number of values and a size that it
bounds while it writes; the client crate decodes the body with limits of its own. What the
server accepted the client reads, as the value that corresponds to the tree: the client's
checks look ahead at the least a collection must have, and what was written has it.

How a number is read from text is a library; 64-bit floats are their bits. Failing
allocations are left out, and so is the lenient reading of the text of an error.
-/
namespace ShardKv

open List
variable {depth : ℕ} {before after : NativeBuffer} (field : String)

inductive RedisResponse where
  | ok
  | null
  | integer (value : Int64)
  | value (bytes : Bytes)
  | array (values : List RedisResponse)
  | map (entries : List (RedisResponse × RedisResponse))
  | set (values : List RedisResponse)
  | push (values : List RedisResponse)
  | float (bits : UInt64)
  | boolean (value : Bool)
  | error (message : Bytes)
  | bigNumber (text : Bytes)
  | verbatim (format value : Bytes)
  | attribute (attributes : List (RedisResponse × RedisResponse)) (data : RedisResponse)

namespace NativeRedis

def nativeRedisMaxBodyBytes : ℕ := 256 * 1024 * 1024

def nativeRedisMaxValues : ℕ := 1048576

def nativeRedisMaxNestingDepth : ℕ := 128

/-- What was written so far, and how many values may follow. -/
structure NativeBuffer where
  out : Bytes
  remainingValues : ℕ

section Server

variable (parseF64 : Bytes → Option UInt64)

def nativeRoom (out : Bytes) (additional : ℕ) : Except String Unit :=
  if nativeRedisMaxBodyBytes - out.length < additional then
    .error "ERR native Redis response exceeds body limit"
  else .ok ()

def write (bytes : Bytes) (buffer : NativeBuffer) : NativeBuffer :=
  { buffer with out := buffer.out ++ bytes }

def writeNativeCount (count : ℕ) (buffer : NativeBuffer) : Except String NativeBuffer :=
  if 65536 < count then .error "ERR native Redis response exceeds collection limit"
  else .ok (write (leBytes 4 count) buffer)

def writeNativeBytes (bytes : Bytes) (buffer : NativeBuffer) : Except String NativeBuffer := do
  nativeRoom buffer.out 4
  nativeRoom buffer.out (4 + bytes.length)
  return write (leBytes 4 bytes.length ++ bytes) buffer

/-- The checks in front of every value. -/
def enter (depth : ℕ) (buffer : NativeBuffer) : Except String NativeBuffer :=
  if nativeRedisMaxNestingDepth < depth ∨ buffer.remainingValues = 0 then
    .error "ERR native Redis response exceeds nesting or value limit"
  else do
    nativeRoom buffer.out 9
    return { buffer with remainingValues := buffer.remainingValues - 1 }

def writeDouble (text : Bytes) (buffer : NativeBuffer) : Except String NativeBuffer :=
  match parseF64 text with
  | none => .error "ERR invalid native Redis double"
  | some bits => .ok (write (9 :: leBytes 8 bits.toNat) buffer)

mutual

def encodeNativeFrame : Frame → ℕ → NativeBuffer → Except String NativeBuffer
  | .simpleString text, depth, buffer => do
    let buffer ← enter depth buffer
    writeNativeBytes text.bytes (write [0] buffer)
  | .blobString bytes, depth, buffer => do
    let buffer ← enter depth buffer
    writeNativeBytes bytes (write [1] buffer)
  | .integer number, depth, buffer => do
    let buffer ← enter depth buffer
    return write (2 :: leBytes 8 number.toUInt64.toNat) buffer
  | .array values, depth, buffer => do
    let buffer ← enter depth buffer
    let buffer ← writeNativeCount values.length (write [3] buffer)
    encodeNativeItems values (depth + 1) buffer
  | .map entries, depth, buffer => do
    let buffer ← enter depth buffer
    let buffer ← writeNativeCount entries.length (write [4] buffer)
    encodeNativePairs entries (depth + 1) buffer
  | .set values, depth, buffer => do
    let buffer ← enter depth buffer
    let buffer ← writeNativeCount values.length (write [5] buffer)
    encodeNativeItems values (depth + 1) buffer
  | .push values, depth, buffer => do
    let buffer ← enter depth buffer
    let buffer ← writeNativeCount values.length (write [6] buffer)
    encodeNativeItems values (depth + 1) buffer
  | .null, depth, buffer => do
    let buffer ← enter depth buffer
    return write [7] buffer
  | .boolean flag, depth, buffer => do
    let buffer ← enter depth buffer
    return write [8, if flag then 1 else 0] buffer
  | .double text, depth, buffer => do
    let buffer ← enter depth buffer
    writeDouble parseF64 text.bytes buffer
  | .bigNumber text, depth, buffer => do
    let buffer ← enter depth buffer
    writeNativeBytes text.bytes (write [10] buffer)
  | .verbatimString format bytes, depth, buffer => do
    let buffer ← enter depth buffer
    let buffer ← writeNativeBytes format.bytes (write [11] buffer)
    writeNativeBytes bytes buffer
  | .attribute attributes data, depth, buffer => do
    let buffer ← enter depth buffer
    let buffer ← writeNativeCount attributes.length (write [12] buffer)
    let buffer ← encodeNativePairs attributes (depth + 1) buffer
    encodeNativeFrame data (depth + 1) buffer
  | .error message, depth, buffer => do
    let buffer ← enter depth buffer
    writeNativeBytes message.bytes (write [13] buffer)

def encodeNativeItems : List Frame → ℕ → NativeBuffer → Except String NativeBuffer
  | [], _, buffer => .ok buffer
  | item :: items, depth, buffer => do
    let buffer ← encodeNativeFrame item depth buffer
    encodeNativeItems items depth buffer

def encodeNativePairs : List (Frame × Frame) → ℕ → NativeBuffer → Except String NativeBuffer
  | [], _, buffer => .ok buffer
  | item :: items, depth, buffer => do
    let buffer ← encodeNativePair item depth buffer
    encodeNativePairs items depth buffer

def encodeNativePair : Frame × Frame → ℕ → NativeBuffer → Except String NativeBuffer
  | (key, value), depth, buffer => do
    let buffer ← encodeNativeFrame key depth buffer
    encodeNativeFrame value depth buffer

end

def encodeNativeRedisFrame (frame : Frame) : Except String Bytes :=
  (encodeNativeFrame parseF64 frame 0 ⟨[], nativeRedisMaxValues⟩).map NativeBuffer.out

end Server

def takeNativeByte : ByteReader UInt8 := fun input =>
  match input with
  | [] => .error s!"{field} is truncated"
  | byte :: rest => .ok (byte, rest)

def takeNativeFixed (width : ℕ) (field : String) : ByteReader Bytes := fun input =>
  if input.length < width then .error s!"{field} is truncated"
  else .ok (input.take width, input.drop width)

def takeNativeU32 : ByteReader ℕ := leValue <$> takeNativeFixed 4 field

def takeNativeI64 : ByteReader Int64 :=
  (fun bytes => (UInt64.ofNat (leValue bytes)).toInt64) <$> takeNativeFixed 8 field

def takeNativeF64 : ByteReader UInt64 :=
  (fun bytes => UInt64.ofNat (leValue bytes)) <$> takeNativeFixed 8 field

def takeNativeBytes : ByteReader Bytes := do
  let len ← takeNativeU32 field
  takeNativeFixed len field

variable {α : Type}

/-- The least number of values that must follow a count, held against what is left of the body and
of the budget. -/
def checkNativeCount (count minimumValues : ℕ) (items : BudgetReader α) :
    BudgetReader α := fun budget input =>
  if RespCodec.respMaxContainerItems < count ∨ input.length < minimumValues ∨
      budget < minimumValues then
    .error s!"{field} item count exceeds the response-body or value limit"
  else items budget input

/-- A count, and the items after it. -/
def takeNativeCount (valuesPerEntry trailingValues : ℕ) (items : ℕ → BudgetReader α) :
    BudgetReader α := do
  let count ← BudgetReader.free (takeNativeU32 field)
  checkNativeCount field count (count * valuesPerEntry + trailingValues) (items count)

variable (child : BudgetReader RedisResponse)

def parseNativePair :
    BudgetReader (RedisResponse × RedisResponse) := do
  let key ← child
  let value ← child
  return (key, value)

def nativeBooleanOf (byte : UInt8) : ByteReader RedisResponse :=
  match byte.toNat with
  | 0 => pure (.boolean false)
  | 1 => pure (.boolean true)
  | other => throw s!"invalid native Redis boolean value {other}"

def parseNativeAttribute (count : ℕ) :
    BudgetReader RedisResponse := do
  let attributes ← replicateM (parseNativePair child) count
  let data ← child
  return .attribute attributes data

variable (bytes : Bytes)

/-- The status of a command is the only text that is no value. -/
def simpleStringOf : RedisResponse :=
  if bytes = [79, 75] then .ok else .value bytes

/-- What follows the tag of a value. -/
def parseNativeTagged (tag : UInt8) :
    BudgetReader RedisResponse :=
  match tag.toNat with
  | 0 => BudgetReader.free (simpleStringOf <$> takeNativeBytes "native simple string")
  | 1 => BudgetReader.free (RedisResponse.value <$> takeNativeBytes "native blob string")
  | 2 => BudgetReader.free (RedisResponse.integer <$> takeNativeI64 "native integer")
  | 3 => RedisResponse.array <$> takeNativeCount "native array" 1 0 (replicateM child)
  | 4 => RedisResponse.map <$>
      takeNativeCount "native map" 2 0 (replicateM (parseNativePair child))
  | 5 => RedisResponse.set <$> takeNativeCount "native set" 1 0 (replicateM child)
  | 6 => RedisResponse.push <$> takeNativeCount "native push" 1 0 (replicateM child)
  | 7 => pure .null
  | 8 => BudgetReader.free (takeNativeByte "native boolean" >>= nativeBooleanOf)
  | 9 => BudgetReader.free (RedisResponse.float <$> takeNativeF64 "native double")
  | 10 => BudgetReader.free (RedisResponse.bigNumber <$> takeNativeBytes "native big number")
  | 11 => do
      let format ← BudgetReader.free (takeNativeBytes "native verbatim format")
      let value ← BudgetReader.free (takeNativeBytes "native verbatim value")
      return .verbatim format value
  | 12 => takeNativeCount "native attributes" 2 1 (parseNativeAttribute child)
  | 13 => BudgetReader.free (RedisResponse.error <$> takeNativeBytes "native error")
  | other => BudgetReader.free (throw s!"unsupported native Redis response tag {other}")

/-- Values with so many levels at most. -/
def parseNativeValue : ℕ → BudgetReader RedisResponse
  | 0 => do
    BudgetReader.spend "native Redis response exceeds value budget"
    BudgetReader.free (throw
      s!"native Redis response nesting exceeds maximum depth {nativeRedisMaxNestingDepth}")
  | levels + 1 => do
    BudgetReader.spend "native Redis response exceeds value budget"
    let tag ← BudgetReader.free (takeNativeByte "native Redis response tag")
    parseNativeTagged (parseNativeValue levels) tag

/-- A body that is malformed, or the error that is the whole response. -/
inductive NativeDecodeError where
  | malformed (text : String)
  | fromServer (message : Bytes)

def decode : Except NativeDecodeError RedisResponse :=
  if nativeRedisMaxBodyBytes < bytes.length then
    .error (.malformed "native Redis response exceeds body limit")
  else match parseNativeValue (nativeRedisMaxNestingDepth + 1) nativeRedisMaxValues bytes with
    | .error message => .error (.malformed message)
    | .ok ((response, _), rest) =>
      if rest ≠ [] then .error (.malformed "native Redis response has trailing bytes")
      else match response with
        | .error message => .error (.fromServer message)
        | response => .ok response

section Interoperability

variable (parseF64 : Bytes → Option UInt64)

mutual

/-- The value that corresponds to a frame. The encoder accepts no number that is not one. -/
def respond : Frame → RedisResponse
  | .simpleString text => simpleStringOf text.bytes
  | .blobString bytes => .value bytes
  | .integer number => .integer number
  | .array values => .array (respondItems values)
  | .map entries => .map (respondPairs entries)
  | .set values => .set (respondItems values)
  | .push values => .push (respondItems values)
  | .null => .null
  | .boolean flag => .boolean flag
  | .double text => .float ((parseF64 text.bytes).getD 0)
  | .bigNumber text => .bigNumber text.bytes
  | .verbatimString format bytes => .verbatim format.bytes bytes
  | .attribute attributes data => .attribute (respondPairs attributes) (respond data)
  | .error message => .error message.bytes

def respondItems : List Frame → List RedisResponse
  | [] => []
  | item :: items => respond item :: respondItems items

def respondPairs : List (Frame × Frame) → List (RedisResponse × RedisResponse)
  | [] => []
  | item :: items => respondPair item :: respondPairs items

def respondPair : Frame × Frame → RedisResponse × RedisResponse
  | (key, value) => (respond key, respond value)

end

variable {parseF64}

open BudgetReader

/-- Between two states of the buffer, what the reader takes for the value was appended, of at least
so many bytes and for at least so many units of the budget. -/
structure Carries {α : Type} (before after : NativeBuffer) (reader : BudgetReader α)
    (leastBytes leastUnits : ℕ) (value : α) : Prop where
  fits : before.out.length ≤ nativeRedisMaxBodyBytes → after.out.length ≤ nativeRedisMaxBodyBytes
  read : ∃ bytes used, after.out = before.out ++ bytes ∧
    before.remainingValues = used + after.remainingValues ∧ leastBytes ≤ bytes.length ∧
    leastUnits ≤ used ∧ Spends reader used bytes value

section Carries

variable {α β : Type} {before between after : NativeBuffer} {reader : BudgetReader α}
  {next : α → BudgetReader β} {leastBytes leastUnits leastBytes' leastUnits' : ℕ} {value : α}
  {result : β}

theorem carries_pure (buffer : NativeBuffer) (value : α) :
    Carries buffer buffer (pure value) 0 0 value where
  fits h := h
  read := ⟨[], 0, by simp, by simp, le_rfl, le_rfl, spends_pure value⟩

theorem Carries.bind {least least' : ℕ}
    (hfirst : Carries before between reader leastBytes leastUnits value)
    (hsecond : Carries between after (next value) leastBytes' leastUnits' result)
    (hbytesLeast : least ≤ leastBytes + leastBytes')
    (hunitsLeast : least' ≤ leastUnits + leastUnits') :
    Carries before after (reader >>= next) least least' result where
  fits h := hsecond.fits (hfirst.fits h)
  read := by
    obtain ⟨bytes, used, hout, hused, hbytes, hunits, hread⟩ := hfirst.read
    obtain ⟨bytes', used', hout', hused', hbytes', hunits', hread'⟩ := hsecond.read
    refine ⟨bytes ++ bytes', used + used', ?_, by omega, ?_, by omega, hread.bind hread'⟩
    · rw [hout', hout, append_assoc]
    · rw [length_append]
      omega

theorem Carries.bindPure {f : α → β} (h : Carries before after reader leastBytes leastUnits value) :
    Carries before after (reader >>= fun read => pure (f read)) leastBytes leastUnits (f value) where
  fits := h.fits
  read := by
    obtain ⟨bytes, used, hout, hused, hbytes, hunits, hread⟩ := h.read
    exact ⟨bytes, used, hout, hused, hbytes, hunits, hread.bindPure⟩

section

variable (h : Carries before after reader leastBytes leastUnits value)
include h

theorem Carries.map (f : α → β) :
    Carries before after (f <$> reader) leastBytes leastUnits (f value) := by
  rw [map_eq_pure_bind]
  exact h.bindPure

theorem Carries.mono (hbytes : leastBytes' ≤ leastBytes) (hunits : leastUnits' ≤ leastUnits) :
    Carries before after reader leastBytes' leastUnits' value where
  fits := h.fits
  read := by
    obtain ⟨bytes, used, hout, hused, hleast, hleast', hread⟩ := h.read
    exact ⟨bytes, used, hout, hused, hbytes.trans hleast, hunits.trans hleast', hread⟩

end

/-- Bytes that fit are read by a reader that spends nothing. -/
theorem carries_write {buffer : NativeBuffer} {reader : ByteReader α} {bytes : Bytes}
    (hroom : buffer.out.length + bytes.length ≤ nativeRedisMaxBodyBytes)
    (hread : ByteReader.Reads reader bytes value) :
    Carries buffer (write bytes buffer) (free reader) bytes.length 0 value where
  fits _ := by rwa [write, length_append]
  read := ⟨bytes, 0, rfl, by simp [write], le_rfl, le_rfl, spends_free hread⟩

end Carries

theorem nativeRoom_eq_ok {out : Bytes} {additional : ℕ} {done : Unit}
    (h : nativeRoom out additional = .ok done) (hpos : 0 < additional) :
    out.length + additional ≤ nativeRedisMaxBodyBytes := by
  rw [nativeRoom] at h
  split_ifs at h
  omega

theorem enter_eq_ok (h : enter depth before = .ok after) :
    depth ≤ nativeRedisMaxNestingDepth ∧ after.out = before.out ∧
      before.remainingValues = 1 + after.remainingValues ∧
      after.out.length + 9 ≤ nativeRedisMaxBodyBytes := by
  rw [enter] at h
  split_ifs at h with hlimit
  rw [not_or] at hlimit
  obtain ⟨done, hroom, h⟩ := Except.bind_eq_ok.mp h
  cases h
  exact ⟨Nat.not_lt.mp hlimit.1, rfl, by simp only; omega, nativeRoom_eq_ok hroom (by decide)⟩

theorem reads_takeNativeFixed :
    ByteReader.Reads (takeNativeFixed bytes.length field) bytes bytes := by
  intro rest
  rw [takeNativeFixed, if_neg (by simp), take_left, drop_left]

/-- A field of a fixed width is read as the number it was written for. -/
theorem reads_field (width n : ℕ) :
    ByteReader.Reads (takeNativeFixed width field) (leBytes width n) (leBytes width n) := by
  have hread := reads_takeNativeFixed field (leBytes width n)
  rwa [length_leBytes] at hread

theorem reads_takeNativeU32 {n : ℕ} (h : n < 2 ^ 32) :
    ByteReader.Reads (takeNativeU32 field) (leBytes 4 n) n := by
  have hread := (reads_field field 4 n).map leValue
  rwa [leValue_leBytes_of_lt h] at hread

theorem uint64_ofNat_leBytes (bits : UInt64) :
    UInt64.ofNat (leValue (leBytes 8 bits.toNat)) = bits := by
  rw [leValue_leBytes_of_lt bits.toNat_lt, UInt64.ofNat_toNat]

theorem reads_takeNativeI64 (number : Int64) :
    ByteReader.Reads (takeNativeI64 field) (leBytes 8 number.toUInt64.toNat) number := by
  have hread := (reads_field field 8 number.toUInt64.toNat).map
    fun bytes => (UInt64.ofNat (leValue bytes)).toInt64
  rwa [uint64_ofNat_leBytes] at hread

theorem reads_takeNativeF64 (bits : UInt64) :
    ByteReader.Reads (takeNativeF64 field) (leBytes 8 bits.toNat) bits := by
  have hread := (reads_field field 8 bits.toNat).map fun bytes => UInt64.ofNat (leValue bytes)
  rwa [uint64_ofNat_leBytes] at hread

theorem reads_takeNativeBytes {bytes : Bytes} (h : bytes.length < 2 ^ 32) :
    ByteReader.Reads (takeNativeBytes field) (leBytes 4 bytes.length ++ bytes) bytes :=
  (reads_takeNativeU32 field h).bind (reads_takeNativeFixed field bytes)

/-- Bytes that were written with their length are read with it. -/
theorem carries_writeNativeBytes {bytes : Bytes}
    (h : writeNativeBytes bytes before = .ok after) {reader : ByteReader α} {value : α}
    (hread : bytes.length < 2 ^ 32 →
      ByteReader.Reads reader (leBytes 4 bytes.length ++ bytes) value) :
    Carries before after (free reader) 0 0 value := by
  obtain ⟨_, -, h⟩ := Except.bind_eq_ok.mp h
  obtain ⟨done, hroom, h⟩ := Except.bind_eq_ok.mp h
  cases h
  have hfits := nativeRoom_eq_ok hroom (by omega)
  have hlen : bytes.length < 2 ^ 32 := by
    rw [nativeRedisMaxBodyBytes] at hfits
    omega
  refine (carries_write ?_ (hread hlen)).mono (Nat.zero_le _) le_rfl
  rw [length_append, length_leBytes]
  omega

theorem write_append (first second : Bytes) (buffer : NativeBuffer) :
    write (first ++ second) buffer = write second (write first buffer) := by
  rw [write, write, write, append_assoc]

/-- A value, from its tag on, after the checks in front of it. -/
theorem carries_value {levels : ℕ} {between : NativeBuffer} (tag : UInt8) {value : RedisResponse}
    (henter : enter depth before = .ok between)
    (htagged : Carries (write [tag] between) after (parseNativeTagged (parseNativeValue levels) tag)
      0 0 value) :
    Carries before after (parseNativeValue (levels + 1)) 1 1 value := by
  obtain ⟨-, hout, hunits, hroom⟩ := enter_eq_ok henter
  have hspend : Carries before between
      (spend "native Redis response exceeds value budget") 0 1 () := by
    refine ⟨fun h => hout ▸ h, [], 1, ?_, hunits, le_rfl, le_rfl, spends_spend _⟩
    rw [hout, append_nil]
  have htag : Carries between (write [tag] between)
      (free (takeNativeByte "native Redis response tag")) 1 0 tag :=
    carries_write (by simp; omega) fun _ => rfl
  have hrest := htag.bind htagged le_rfl le_rfl
  exact hspend.bind hrest le_rfl le_rfl

/-- A count that was accepted, and items that are at least as many as it requires. -/
theorem carries_counted {count valuesPerEntry trailingValues leastBytes leastUnits : ℕ}
    {between : NativeBuffer} {items : ℕ → BudgetReader α} {value : α}
    (hroom : before.out.length + 4 ≤ nativeRedisMaxBodyBytes)
    (hcount : writeNativeCount count before = .ok between)
    (hitems : Carries between after (items count) leastBytes leastUnits value)
    (hbytes : count * valuesPerEntry + trailingValues ≤ leastBytes)
    (hunits : count * valuesPerEntry + trailingValues ≤ leastUnits) :
    Carries before after (takeNativeCount field valuesPerEntry trailingValues items) 0 0 value := by
  rw [writeNativeCount] at hcount
  split_ifs at hcount with hlimit
  cases hcount
  have hfits : count < 2 ^ 32 := by omega
  have hlen := carries_write (by simpa using hroom) (reads_takeNativeU32 field hfits)
  have hchecked : Carries (write (leBytes 4 count) before) after
      (checkNativeCount field count (count * valuesPerEntry + trailingValues) (items count)) 0 0
      value := by
    obtain ⟨bytes, used, hout, hused, hleast, hleast', hread⟩ := hitems.read
    refine ⟨hitems.fits, bytes, used, hout, hused, Nat.zero_le _, Nat.zero_le _,
      fun budget rest => ?_⟩
    rw [checkNativeCount, if_neg, hread budget rest]
    rw [length_append, RespCodec.respMaxContainerItems]
    omega
  exact hlen.bind hchecked (Nat.zero_le _) (Nat.zero_le _)

section Level

variable {levels depth : ℕ} {between : NativeBuffer}

/-- What is to be shown about the values one level below. -/
def ChildrenCarry (parseF64 : Bytes → Option UInt64) (levels depth : ℕ) : Prop :=
  ∀ frame before after, encodeNativeFrame parseF64 frame depth before = .ok after →
    Carries before after (parseNativeValue levels) 1 1 (respond parseF64 frame)

section

variable (hchild : ChildrenCarry parseF64 levels depth)
include hchild

theorem carries_items {items : List Frame}
    (h : encodeNativeItems parseF64 items depth before = .ok after) :
    Carries before after (replicateM (parseNativeValue levels) items.length) items.length
      items.length (respondItems parseF64 items) := by
  induction items generalizing before with
  | nil =>
    rw [encodeNativeItems] at h
    cases h
    rw [respondItems]
    exact carries_pure _ []
  | cons item items ih =>
    rw [encodeNativeItems] at h
    obtain ⟨between, hitem, hrest⟩ := Except.bind_eq_ok.mp h
    rw [respondItems]
    exact (hchild item _ between hitem).bind (ih hrest).bindPure (Nat.add_comm _ _).le
      (Nat.add_comm _ _).le

theorem carries_pair {item : Frame × Frame}
    (h : encodeNativePair parseF64 item depth before = .ok after) :
    Carries before after (parseNativePair (parseNativeValue levels)) 2 2
      (respondPair parseF64 item) := by
  rw [encodeNativePair] at h
  obtain ⟨between, hkey, hvalue⟩ := Except.bind_eq_ok.mp h
  rw [respondPair]
  exact (hchild _ _ _ hkey).bind (hchild _ _ _ hvalue).bindPure le_rfl le_rfl

theorem carries_pairs {items : List (Frame × Frame)}
    (h : encodeNativePairs parseF64 items depth before = .ok after) :
    Carries before after (replicateM (parseNativePair (parseNativeValue levels)) items.length)
      (items.length * 2) (items.length * 2) (respondPairs parseF64 items) := by
  induction items generalizing before with
  | nil =>
    rw [encodeNativePairs] at h
    cases h
    rw [respondPairs]
    exact carries_pure _ []
  | cons item items ih =>
    rw [encodeNativePairs] at h
    obtain ⟨between, hitem, hrest⟩ := Except.bind_eq_ok.mp h
    rw [respondPairs]
    have hleast : (item :: items).length * 2 ≤ 2 + items.length * 2 := by
      rw [length_cons]
      omega
    exact (carries_pair hchild hitem).bind (ih hrest).bindPure hleast hleast

end

theorem carries_fixedValue (tag : UInt8) {bytes : Bytes} {reader : ByteReader RedisResponse}
    {value : RedisResponse} (henter : enter depth before = .ok between)
    (htag : parseNativeTagged (parseNativeValue levels) tag = free reader) (hlen : bytes.length ≤ 8)
    (hread : ByteReader.Reads reader bytes value) :
    Carries before (write bytes (write [tag] between)) (parseNativeValue (levels + 1)) 1 1
      value := by
  obtain ⟨-, -, -, hroom⟩ := enter_eq_ok henter
  refine carries_value tag henter ?_
  rw [htag]
  refine (carries_write ?_ hread).mono (Nat.zero_le _) le_rfl
  rw [write, length_append, length_singleton]
  omega

theorem carries_itemsValue (hchild : ChildrenCarry parseF64 levels (depth + 1))
    {counted : NativeBuffer} {tag : UInt8} {items : List Frame} {field : String}
    {make : List RedisResponse → RedisResponse} (henter : enter depth before = .ok between)
    (htag : parseNativeTagged (parseNativeValue levels) tag =
      make <$> takeNativeCount field 1 0 (replicateM (parseNativeValue levels)))
    (hcount : writeNativeCount items.length (write [tag] between) = .ok counted)
    (hitems : encodeNativeItems parseF64 items (depth + 1) counted = .ok after) :
    Carries before after (parseNativeValue (levels + 1)) 1 1
      (make (respondItems parseF64 items)) := by
  obtain ⟨-, -, -, hroom⟩ := enter_eq_ok henter
  refine carries_value tag henter ?_
  rw [htag]
  refine (carries_counted field ?_ hcount (carries_items hchild hitems) ?_ ?_).map make
  · rw [write, length_append, length_singleton]
    omega
  · omega
  · omega

/-- One level: what was accepted of a frame is read as the value that corresponds to it. -/
theorem carries_level (hchild : ChildrenCarry parseF64 levels (depth + 1)) :
    ChildrenCarry parseF64 (levels + 1) depth := by
  intro frame before after h
  -- every frame first takes a value from the budget
  cases frame <;> rw [encodeNativeFrame] at h <;>
    obtain ⟨between, henter, hbody⟩ := Except.bind_eq_ok.mp h <;> rw [respond]
  case simpleString | blobString | bigNumber | error =>
    exact carries_value _ henter
      (carries_writeNativeBytes hbody fun hlen => (reads_takeNativeBytes _ hlen).map _)
  case integer number =>
    cases hbody
    rw [← singleton_append, write_append]
    exact carries_fixedValue 2 henter rfl (length_leBytes 8 _).le
      ((reads_takeNativeI64 _ number).map RedisResponse.integer)
  case array | set | push =>
    obtain ⟨counted, hcount, hitems⟩ := Except.bind_eq_ok.mp hbody
    exact carries_itemsValue hchild henter rfl hcount hitems
  case null =>
    cases hbody
    exact carries_value 7 henter (carries_pure _ RedisResponse.null)
  case boolean flag =>
    cases hbody
    have hread : ByteReader.Reads (takeNativeByte "native boolean" >>= nativeBooleanOf)
        [if flag then 1 else 0] (.boolean flag) := fun _ => by cases flag <;> rfl
    rw [← singleton_append, write_append]
    exact carries_fixedValue 8 henter rfl (by simp) hread
  case double text =>
    rw [writeDouble] at hbody
    split at hbody
    · cases hbody
    · next bits hbits =>
      cases hbody
      rw [hbits, Option.getD_some, ← singleton_append, write_append]
      exact carries_fixedValue 9 henter rfl (length_leBytes 8 _).le
        ((reads_takeNativeF64 _ bits).map RedisResponse.float)
  case verbatimString format bytes =>
    obtain ⟨formatted, hformat, hvalue⟩ := Except.bind_eq_ok.mp hbody
    have hfirst := carries_writeNativeBytes hformat (reads_takeNativeBytes "native verbatim format")
    have hsecond := carries_writeNativeBytes hvalue (reads_takeNativeBytes "native verbatim value")
    exact carries_value 11 henter (hfirst.bind hsecond.bindPure le_rfl le_rfl)
  case map entries =>
    obtain ⟨counted, hcount, hitems⟩ := Except.bind_eq_ok.mp hbody
    obtain ⟨-, -, -, hroom⟩ := enter_eq_ok henter
    refine carries_value 4 henter ?_
    refine (carries_counted "native map" ?_ hcount (carries_pairs hchild hitems) ?_ ?_).map
      RedisResponse.map
    · simp [write]; omega
    · omega
    · omega
  case «attribute» attributes data =>
    obtain ⟨counted, hcount, hitems⟩ := Except.bind_eq_ok.mp hbody
    obtain ⟨attributed, hattributes, hdata⟩ := Except.bind_eq_ok.mp hitems
    obtain ⟨-, -, -, hroom⟩ := enter_eq_ok henter
    have hparts : Carries counted after
        (parseNativeAttribute (parseNativeValue levels) attributes.length)
        (attributes.length * 2 + 1) (attributes.length * 2 + 1)
        (.attribute (respondPairs parseF64 attributes) (respond parseF64 data)) :=
      (carries_pairs hchild hattributes).bind (hchild _ _ _ hdata).bindPure le_rfl le_rfl
    refine carries_value 12 henter ?_
    refine carries_counted "native attributes" ?_ hcount hparts le_rfl le_rfl
    simp [write]; omega

end Level

/-- All levels. The encoder refuses what is deeper than the decoder reads. -/
theorem carries_levels {levels : ℕ} (h : depth + levels = nativeRedisMaxNestingDepth + 1) :
    ChildrenCarry parseF64 levels depth := by
  induction levels generalizing depth with
  | zero =>
    intro frame before after hencoded
    have henter : ∃ between, enter depth before = .ok between := by
      cases frame <;> rw [encodeNativeFrame] at hencoded <;>
        exact (Except.bind_eq_ok.mp hencoded).imp fun _ hbetween => hbetween.1
    obtain ⟨between, henter⟩ := henter
    have hdepth := (enter_eq_ok henter).1
    omega
  | succ levels ih => exact carries_level (ih (by omega))

/-- Only an error corresponds to an error. -/
theorem respond_ne_error {frame : Frame} (h : ∀ message, frame ≠ .error message) (message : Bytes) :
    respond parseF64 frame ≠ .error message := by
  cases frame with
  | error text => exact absurd rfl (h text)
  | simpleString text =>
    rw [respond, simpleStringOf]
    split_ifs <;> exact RedisResponse.noConfusion
  | _ =>
    rw [respond]
    exact RedisResponse.noConfusion

end Interoperability

/-- What the server encodes the client decodes, to the value that corresponds to it, unless the
whole response is an error. -/
theorem decode_encodeNativeRedisFrame (parseF64 : Bytes → Option UInt64) (frame : Frame)
    (body : Bytes) (hroot : ∀ message, frame ≠ .error message)
    (h : encodeNativeRedisFrame parseF64 frame = .ok body) :
    decode body = .ok (respond parseF64 frame) := by
  obtain ⟨after, hencoded, rfl⟩ := Except.map_eq_ok.mp h
  have hcarries := carries_levels (Nat.zero_add _) frame _ _ hencoded
  have hfits := hcarries.fits (Nat.zero_le _)
  obtain ⟨bytes, used, hout, hused, -, -, hread⟩ := hcarries.read
  have hparsed := (hread after.remainingValues).run
  rw [← hused, ← show after.out = bytes from hout] at hparsed
  rw [decode, if_neg (Nat.not_lt.mpr hfits), hparsed]
  simp only [ne_eq, not_true_eq_false, if_false]
  split
  · next message herror => exact absurd herror (respond_ne_error hroot message)
  · rfl

/-- A transaction's replies, one of them an error. -/
theorem decode_encodeNativeRedisFrame_exec :
    decode [3, 2, 0, 0, 0, 2, 7, 0, 0, 0, 0, 0, 0, 0, 13, 1, 0, 0, 0, 69] =
      .ok (.array [.integer 7, .error [69]]) := by
  have hdecoded := decode_encodeNativeRedisFrame (fun _ => none)
    (.array [.integer 7, .error ⟨[69], by decide⟩]) _ (fun _ => Frame.noConfusion) rfl
  exact hdecoded

end NativeRedis
end ShardKv
