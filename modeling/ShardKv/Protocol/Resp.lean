import ShardKv.Foundations.Incremental

/-!
# The RESP codec

Frames, their encoding, and the three decoders: of whole frames, of commands, and of
the positions of the parts of commands. Decoders work on the bytes that have arrived
and return the length of what they decoded.

Buffers of the machine are shorter than half its address space, so that sums of a
position and a length do not overflow; lengths are plain numbers here. The details that
the standard library adds to a message about malformed UTF-8 are left out.
-/
namespace ShardKv

variable (child : Incremental Frame) (buffer : Bytes) (byte : UInt8) (text : Bytes)

/-- A string of the source. -/
structure Utf8 where
  bytes : Bytes
  valid : isUtf8 bytes = true
  deriving DecidableEq

def isDigit : Bool := 48 ≤ byte && byte ≤ 57

def toAsciiLower : UInt8 := if 65 ≤ byte && byte ≤ 90 then byte + 32 else byte

def asciiText (text : String) : Bytes := text.toList.map fun char => char.toNat.toUInt8

def dropSign : Bytes → Bytes
  | 43 :: rest | 45 :: rest => rest
  | text => text

def isExponent : Bytes → Bool
  | [] => true
  | mark :: rest =>
    toAsciiLower mark == 101 && !(dropSign rest).isEmpty && (dropSign rest).all isDigit

def isDecimalNumber : Bool :=
  match text.dropWhile isDigit with
  | 46 :: rest =>
    !(text.takeWhile isDigit ++ rest.takeWhile isDigit).isEmpty &&
      isExponent (rest.dropWhile isDigit)
  | rest => !(text.takeWhile isDigit).isEmpty && isExponent rest

/-- What `str::parse::<f64>` accepts. -/
def isF64Text : Bool := isDecimalNumber (dropSign text) ||
    [asciiText "nan", asciiText "inf", asciiText "infinity"].contains
      ((dropSign text).map toAsciiLower)

inductive Frame where
  | simpleString (value : Utf8)
  | blobString (value : Bytes)
  | integer (value : Int64)
  | array (items : List Frame)
  | map (items : List (Frame × Frame))
  | set (items : List Frame)
  | push (items : List Frame)
  | null
  | boolean (value : Bool)
  | double (text : Utf8)
  | bigNumber (text : Utf8)
  | verbatimString (format : Utf8) (value : Bytes)
  | attribute (attributes : List (Frame × Frame)) (data : Frame)
  | error (message : Utf8)

namespace RespCodec

def respMaxContainerItems : ℕ := 65536

def respMaxNestingDepth : ℕ := 128

def respMinFrameBytes : ℕ := 3

def crlf : Bytes := [13, 10]

/-- A signed number as text. -/
def integerBytes (value : ℤ) : Bytes :=
  if value < 0 then 45 :: decimalBytes value.natAbs else decimalBytes value.natAbs

variable (marker : UInt8)

/-- The marker of an aggregate and the number of its items. -/
def containerHeader (count : ℕ) : Bytes := marker :: decimalBytes count ++ crlf

def encodeLine (text : Bytes) : Bytes := marker :: text ++ crlf

def encodeBlob (payload : Bytes) : Bytes :=
  containerHeader marker payload.length ++ payload ++ crlf

mutual

def encode : Frame → Bytes
  | .simpleString value => encodeLine 43 value.bytes
  | .blobString value => encodeBlob 36 value
  | .integer value => encodeLine 58 (integerBytes value.toInt)
  | .array items => containerHeader 42 items.length ++ encodeItems items
  | .map items => containerHeader 37 items.length ++ encodePairs items
  | .set items => containerHeader 126 items.length ++ encodeItems items
  | .push items => containerHeader 62 items.length ++ encodeItems items
  | .null => encodeLine 95 []
  | .boolean value => encodeLine 35 [if value then 116 else 102]
  | .double text => encodeLine 44 text.bytes
  | .bigNumber text => encodeLine 40 text.bytes
  | .verbatimString format value => encodeBlob 61 (format.bytes ++ 58 :: value)
  | .attribute attributes data =>
    containerHeader 124 attributes.length ++ encodePairs attributes ++ encode data
  | .error message => encodeLine 45 message.bytes

def encodeItems : List Frame → Bytes
  | [] => []
  | item :: items => encode item ++ encodeItems items

def encodePairs : List (Frame × Frame) → Bytes
  | [] => []
  | item :: items => encodePair item ++ encodePairs items

def encodePair : Frame × Frame → Bytes
  | (key, value) => encode key ++ encode value

end

open Incremental

/-- The position of the first line end. -/
def findCrlf : Bytes → Option ℕ
  | [] => none
  | byte :: rest =>
    if byte = 13 ∧ rest.head? = some 10 then some 0 else (findCrlf rest).map (· + 1)

def line : Incremental Bytes := fun input =>
  match findCrlf input with
  | none => .incomplete
  | some stop => .complete (input.take stop) (input.drop (stop + 2))

def fromUtf8 (bytes : Bytes) (what : String) : Except String Utf8 :=
  if h : isUtf8 bytes = true then .ok ⟨bytes, h⟩ else .error s!"invalid utf8 in {what}"

def parseLine : Incremental Utf8 := do
  let text ← line
  check (fromUtf8 text "RESP line")

def hexDigits : List Char := "0123456789abcdef".toList

/-- A byte as `0x` and its digits. -/
def hexByte : String := String.ofList (['0', 'x'] ++ (if byte.toNat < 16 then [] else
    [hexDigits.getD (byte.toNat / 16) '0']) ++ [hexDigits.getD (byte.toNat % 16) '0'])

/-- The largest number of a 64-bit signed word. -/
def maxInt64 : ℕ := 2 ^ 63 - 1

/-- The digits that are left, after a value was read: each is checked, then the value. -/
def parseDigits (value : ℕ) : Bytes → Except String ℕ
  | [] => .ok value
  | byte :: digits =>
    if !isDigit byte then
      let shown := hexByte byte
      .error s!"non-digit byte in RESP integer: {shown}"
    else if value * 10 + (byte.toNat - 48) > maxInt64 then .error "RESP integer overflow"
    else parseDigits (value * 10 + (byte.toNat - 48)) digits

def splitSign : Bytes → Bool × Bytes
  | 45 :: rest => (true, rest)
  | 43 :: rest => (false, rest)
  | bytes => (false, bytes)

/-- `parse_ascii_isize` and `parse_ascii_i64`: the value is negated after it was read. -/
def parseAsciiInt (bytes : Bytes) : Except String ℤ :=
  let (negative, digits) := splitSign bytes
  if digits = [] then .error "empty integer in RESP header"
  else match parseDigits 0 digits with
    | .error message => .error message
    | .ok value => .ok (if negative then -(value : ℤ) else value)

/-- So many more digits in front of a line end, after a value was read from `consumed` bytes. -/
def tryParseShortUint (value consumed : ℕ) : ℕ → Bytes → Option (ℕ × ℕ)
  | rounds + 1, byte :: cr :: lf :: rest =>
    if !isDigit byte then none
    else if cr = 13 ∧ lf = 10 then some (value * 10 + (byte.toNat - 48), consumed + 3)
    else tryParseShortUint (value * 10 + (byte.toNat - 48)) (consumed + 1) rounds (cr :: lf :: rest)
  | _, _ => none

/-- The value of one to four digits in front of a line end, and the length of the line. The source
has the four rounds one after the other. -/
def tryParseShortUintLine : Option (ℕ × ℕ) := tryParseShortUint 0 0 4 buffer

/-- A number on a line and the length of the line. -/
def parseIntLine : Incremental (ℤ × ℕ) := do
  let text ← line
  let value ← check (parseAsciiInt text)
  return (value, text.length + 2)

def parseIsizeLine : Incremental (ℤ × ℕ) := fun input =>
  match tryParseShortUintLine input with
  | some (value, consumed) => .complete (value, consumed) (input.drop consumed)
  | none => parseIntLine input

/-- Bytes of a known length and the line end after them. -/
def payload (length : ℕ) (missing : String) : Incremental Bytes := do
  let chunk ← take (length + 2)
  check (if chunk.drop length ≠ crlf then .error missing else .ok (chunk.take length))

/-- Checks a count, and waits for the least number of bytes that its items can have. -/
def validateContainerCount {α : Type} (count : ℤ) (framesPerItem : ℕ) (label : String)
    (items : ℕ → Incremental α) : Incremental α :=
  if count < 0 then fail s!"RESP {label} count cannot be negative"
  else if count > respMaxContainerItems then
    fail s!"RESP {label} count {count} exceeds maximum {respMaxContainerItems}"
  else need (count.toNat * framesPerItem * respMinFrameBytes) (items count.toNat)

/-- The count and the items of an aggregate; what a negative count means is up to the caller. -/
def parseContainer {α : Type} (framesPerItem : ℕ) (label : String) (item : Incremental α)
    (negative : Incremental Frame) (make : List α → Frame) : Incremental Frame := do
  let (count, _) ← parseIsizeLine
  if count < 0 then negative
  else make <$> validateContainerCount count framesPerItem label (replicateM item)

def parsePair : Incremental (Frame × Frame) := do
  let key ← child
  let value ← child
  return (key, value)

def parseSimpleString : Incremental Frame := Frame.simpleString <$> parseLine

def parseError : Incremental Frame := Frame.error <$> parseLine

def parseBlobError : Incremental Frame := do
  let (length, _) ← parseIsizeLine
  if length < 0 then fail "RESP3 blob errors cannot be null"
  else
    let message ← payload length.toNat "blob error missing CRLF terminator"
    Frame.error <$> check (fromUtf8 message "RESP error")

def parseInteger : Incremental Frame := do
  let (value, _) ← parseIntLine
  return .integer (Int64.ofInt value)

def parseBlobString : Incremental Frame := do
  let (length, _) ← parseIsizeLine
  if length < 0 then return .null
  else Frame.blobString <$> payload length.toNat "blob string missing CRLF terminator"

def parseArray : Incremental Frame := parseContainer 1 "array" child (pure .null) .array

def parseMap : Incremental Frame :=
  parseContainer 2 "map" (parsePair child) (fail "RESP3 maps cannot be null") .map

def parseSet : Incremental Frame :=
  parseContainer 1 "set" child (fail "RESP3 sets cannot be null") .set

def parsePush : Incremental Frame :=
  parseContainer 1 "push" child (fail "RESP3 pushes cannot be null") .push

def parseNull : Incremental Frame := do
  let chunk ← take 2
  check (if chunk ≠ crlf then .error "invalid null frame" else .ok .null)

/-- The two bytes of a boolean and its line end are looked at together. -/
def booleanOf : Bytes → Except String Frame
  | marker :: rest =>
    if marker = 116 ∨ marker = 102 then
      if rest ≠ crlf then .error "invalid boolean frame" else .ok (.boolean (marker = 116))
    else
      let shown := hexByte marker
      .error s!"invalid boolean marker: {shown}"
  | [] => .error "invalid boolean frame"

def parseBoolean : Incremental Frame := do
  let chunk ← take 3
  check (booleanOf chunk)

def isDoubleText : Bool :=
  [asciiText "inf", asciiText "+inf", asciiText "-inf", asciiText "nan"].contains text ||
    isF64Text text

def doubleOf (text : Utf8) : Except String Frame :=
  if isDoubleText text.bytes then .ok (.double text)
  else if text.bytes = [] then
    .error "invalid RESP3 double value: cannot parse float from empty string"
  else .error "invalid RESP3 double value: invalid float literal"

def parseDouble : Incremental Frame := do
  let text ← parseLine
  check (doubleOf text)

/-- An optional sign and at least one digit. -/
def isBigNumberText : Bool := !(dropSign text).isEmpty && (dropSign text).all isDigit

def parseBigNumber : Incremental Frame := do
  let text ← parseLine
  check (if isBigNumberText text.bytes then .ok (.bigNumber text)
    else .error "invalid RESP3 big number value")

def verbatimOf (content : Bytes) : Except String Frame :=
  match content.findIdx? (· == 58) with
  | none => .error "RESP3 verbatim string missing format separator"
  | some colon =>
    if colon ≠ 3 then .error "RESP3 verbatim string format must be exactly 3 bytes"
    else (fromUtf8 (content.take colon) "RESP3 verbatim format").map fun format =>
      .verbatimString format (content.drop (colon + 1))

def parseVerbatimString : Incremental Frame := do
  let (length, _) ← parseIsizeLine
  if length < 4 then fail "RESP3 verbatim string must include a format prefix"
  else
    let content ← payload length.toNat "verbatim string missing CRLF terminator"
    check (verbatimOf content)

def parseAttribute : Incremental Frame := do
  let (count, _) ← parseIsizeLine
  if count < 0 then fail "RESP3 attributes cannot be null"
  else
    let attributes ← validateContainerCount count 2 "attribute" (replicateM (parsePair child))
    let data ← child
    return .attribute attributes data

/-- What follows the marker of a frame. -/
def parseMarked (marker : UInt8) : Incremental Frame :=
  match marker.toNat with
  | 43 => parseSimpleString
  | 45 => parseError
  | 33 => parseBlobError
  | 58 => parseInteger
  | 36 => parseBlobString
  | 42 => parseArray child
  | 37 => parseMap child
  | 126 => parseSet child
  | 62 => parsePush child
  | 95 => parseNull
  | 35 => parseBoolean
  | 44 => parseDouble
  | 40 => parseBigNumber
  | 61 => parseVerbatimString
  | 124 => parseAttribute child
  | _ =>
    let shown := hexByte marker
    fail s!"unsupported RESP prefix byte: {shown}"

/-- Frames with so many levels at most. -/
def parseFrame : ℕ → Incremental Frame
  | 0 => do
    let _ ← anyByte
    fail s!"RESP nesting exceeds maximum depth {respMaxNestingDepth}"
  | levels + 1 => do
    let marker ← anyByte
    parseMarked (parseFrame levels) marker

/-- The value at the front of the buffer and the length of its encoding; `none` asks for more. -/
def result {α : Type} (parser : Incremental α) (buffer : Bytes) : Except String (Option (α × ℕ)) :=
  match parser buffer with
  | .incomplete => .ok none
  | .error message => .error message
  | .complete value rest => .ok (some (value, buffer.length - rest.length))

def decode : Except String (Option (Frame × ℕ)) :=
  result (parseFrame (respMaxNestingDepth + 1)) buffer

/-- The count of the parts of a command, and the length of the line it stands on. -/
def parseCommandHeader : Incremental (ℤ × ℕ) := do
  let marker ← anyByte
  if marker ≠ 42 then fail "expected RESP array for command frame"
  else
    let (count, consumed) ← parseIsizeLine
    if count < 0 then fail "null command arrays are not supported" else return (count, consumed)

/-- A part of a command with a length in front, and the length of the line that has it. -/
def parseCommandBlob : Incremental (Bytes × ℕ) := do
  let (length, consumed) ← parseIsizeLine
  if length < 0 then fail "null bulk strings are not supported in command frames"
  else
    let part ← payload length.toNat "blob string missing CRLF terminator"
    return (part, consumed)

def parseCommandPart : Incremental Bytes := do
  let marker ← anyByte
  match marker.toNat with
  | 36 => Prod.fst <$> parseCommandBlob
  | 43 => line
  | 58 => line
  | _ =>
    let shown := hexByte marker
    fail s!"unsupported RESP command part prefix byte: {shown}"

def parseCommandFrame : Incremental (List Bytes) := do
  let (count, _) ← parseCommandHeader
  validateContainerCount count 1 "command array" (replicateM parseCommandPart)

def decodeCommand : Except String (Option (List Bytes × ℕ)) := result parseCommandFrame buffer

/-- Where the part at a position starts and ends, and the length of its encoding. -/
def parseCommandPartSpan (offset : ℕ) : Incremental ((ℕ × ℕ) × ℕ) := do
  let marker ← anyByte
  match marker.toNat with
  | 36 =>
    let (part, consumed) ← parseCommandBlob
    let start := offset + 1 + consumed
    return ((start, start + part.length), start + part.length + 2 - offset)
  | 43 | 58 =>
    let part ← line
    return ((offset + 1, offset + 1 + part.length), offset + 1 + part.length + 2 - offset)
  | _ =>
    let shown := hexByte marker
    fail s!"unsupported RESP command part prefix byte: {shown}"

def parseCommandSpans : ℕ → ℕ → Incremental (List (ℕ × ℕ))
  | _, 0 => pure []
  | cursor, count + 1 => do
    let (span, consumed) ← parseCommandPartSpan cursor
    let spans ← parseCommandSpans (cursor + consumed) count
    return span :: spans

def parseCommandSpanFrame : Incremental (List (ℕ × ℕ)) := do
  let (count, consumed) ← parseCommandHeader
  validateContainerCount count 1 "command array" (parseCommandSpans (1 + consumed))

def decodeCommandSpans : Except String (Option (List (ℕ × ℕ) × ℕ)) :=
  result parseCommandSpanFrame buffer

end RespCodec
end ShardKv
