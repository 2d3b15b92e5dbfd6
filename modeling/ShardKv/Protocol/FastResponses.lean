import ShardKv.Foundations.FrameLog
import ShardKv.Protocol.FastCodec
import ShardKv.Server.FastWrite

/-!
# Reading native responses back

The server writes responses without looking at their size. The decoder refuses arrays
of more than 65536 items, and its length field has 32 bits: those are the responses
that it does not return as they were written, and there are no others.
-/
namespace ShardKv.FastCodec

open FastField ByteReader
variable {values : List (Option Bytes)}

/-- A buffer that starts with the header of a response, whatever its length field says. -/
theorem decodeResponse_header (status flags : UInt8) (n : ℕ) (tail : Bytes) :
    decodeResponse (fastHeader fastResponseMagic fastProtocolVersion status flags n ++ tail) =
      if tail.length < n % 2 ^ 32 then .ok none
      else (decodeResponseBody status (tail.take (n % 2 ^ 32))).map fun response =>
        some (response, responseHeaderLen + n % 2 ^ 32) := by
  have hlen : (fastHeader fastResponseMagic fastProtocolVersion status flags n ++ tail).length =
      8 + tail.length := by simp
  have hne : fastHeader fastResponseMagic fastProtocolVersion status flags n ++ tail ≠ [] := by
    simp [fastHeader]
  unfold decodeResponse responseHeaderLen
  simp only [fastHeader_magic, fastHeader_version, fastHeader_code, fastHeader_bodyLen,
    fastHeader_body, hlen, if_neg hne, ne_eq, not_true_eq_false, if_false,
    Nat.not_lt.mpr (Nat.le_add_right 8 _), Nat.add_lt_add_iff_left]
  split_ifs
  · rfl
  · cases decodeResponseBody status (tail.take (n % 2 ^ 32)) <;> rfl

theorem reads_takeArrayItem {item : Option Bytes} (h : ∀ value ∈ item, value.length < 2 ^ 32 - 1) :
    Reads takeArrayItem (encodeArrayItem item) item := by
  cases item with
  | none =>
    intro rest
    refine bind_eq_ok.mpr ⟨2 ^ 32 - 1, rest, reads_takeLen (by decide) rest, ?_⟩
    rw [if_pos rfl]
    rfl
  | some value =>
    have hlen := h value rfl
    refine (reads_takeLen (by omega)).bind ?_
    rw [if_neg (by omega)]
    exact (reads_takeExactSlice value).map some

theorem decodeArrayBody_encode (hcount : values.length ≤ fastMaxCollectionItems)
    (hitems : ∀ item ∈ values, ∀ value ∈ item, value.length < 2 ^ 32 - 1) :
    decodeArrayBody (encodeArrayBody values) = .ok values := by
  have hlist : Reads (takeList (takeLen "fast array count") 4 takeArrayItem "fast array")
      (encodeArrayBody values) values := by
    refine reads_takeList (reads_takeLen ?_) (fun item hitem =>
      reads_takeArrayItem (hitems item hitem)) (fun item => ?_) (by decide) hcount
    · rw [fastMaxCollectionItems] at hcount
      omega
    · cases item <;> simp [encodeArrayItem]
  have hrun : takeArray (encodeArrayBody values) = .ok (values, []) :=
    bind_eq_ok.mpr ⟨values, [], hlist.run, rfl⟩
  rw [decodeArrayBody, hrun]
  rfl

/-- A longer array is refused as soon as its count is read. -/
theorem decodeArrayBody_encode_of_lt (hcount : fastMaxCollectionItems < values.length)
    (hlt : values.length < 2 ^ 32) :
    decodeArrayBody (encodeArrayBody values) = .error "fast array count exceeds remaining body" := by
  have hlen : takeLen "fast array count" (encodeArrayBody values) =
      .ok (values.length, values.flatMap encodeArrayItem) := reads_takeLen hlt _
  have hrefused : checkCount values.length 4 "fast array" (values.flatMap encodeArrayItem) =
      .error "fast array count exceeds remaining body" := by
    rw [checkCount, if_pos (.inl hcount)]
    rfl
  have hlist : takeList (takeLen "fast array count") 4 takeArrayItem "fast array"
      (encodeArrayBody values) = .error "fast array count exceeds remaining body" := by
    simp only [takeList, bind, StateT.bind, hlen, Except.bind, hrefused]
  simp only [decodeArrayBody, takeArray, bind, StateT.bind, hlist, Except.bind, Except.map]

theorem decodeWord_leBytes (make : UInt64 → FastResponse) (word : UInt64) (what : String) :
    decodeWord make (leBytes 8 word.toNat) what = .ok (make word) := by
  have hvalue : leValue (leBytes 8 word.toNat) = word.toNat := by
    rw [leValue_leBytes]
    exact Nat.mod_eq_of_lt word.toNat_lt
  rw [decodeWord, if_neg (by simp), hvalue, UInt64.ofNat_toNat]

theorem decodeResponseBody_encode {response : FastResponse}
    (harray : ∀ values, response = .array values → values.length ≤ fastMaxCollectionItems)
    (hbody : (encodeResponseBody response).length < 2 ^ 32) :
    decodeResponseBody (responseStatus response) (encodeResponseBody response) = .ok response := by
  cases response with
  | ok | null | error | value | nativeFrame => rfl
  | integer => exact decodeWord_leBytes (fun word => .integer word.toInt64) _ _
  | float bits => exact decodeWord_leBytes .float bits _
  | boolean value => cases value <;> rfl
  | array values =>
    have hitems : ∀ item ∈ values, ∀ value ∈ item, value.length < 2 ^ 32 - 1 := by
      rintro item hitem value rfl
      obtain ⟨before, after, rfl⟩ := List.append_of_mem hitem
      simp [encodeResponseBody, encodeArrayBody, encodeArrayItem] at hbody
      omega
    show FastResponse.array <$> decodeArrayBody (encodeArrayBody values) = _
    rw [decodeArrayBody_encode (harray values rfl) hitems]
    rfl

/-- The length of the body fits its field, and an array has no more items than the decoder takes. -/
def Readable (response : FastResponse) : Prop := (encodeResponseBody response).length < 2 ^ 32 ∧
    ∀ values, response = .array values → values.length ≤ fastMaxCollectionItems

theorem length_encodeResponse (response : FastResponse) :
    (encodeResponse response).length = responseHeaderLen + (encodeResponseBody response).length := by
  simp [encodeResponse, responseHeaderLen]

theorem decodeResponse_encode {response : FastResponse} (h : Readable response) (rest : Bytes) :
    decodeResponse (encodeResponse response ++ rest) =
      .ok (some (response, (encodeResponse response).length)) := by
  have hlen := Nat.mod_eq_of_lt h.1
  rw [length_encodeResponse, encodeResponse, List.append_assoc, decodeResponse_header, hlen,
    if_neg (by simp), List.take_left, decodeResponseBody_encode h.2 h.1]
  rfl

theorem length_lt_of_encodeArrayBody (h : (encodeArrayBody values).length < 2 ^ 32) :
    values.length < 2 ^ 32 := by
  have hitems : values.length * 4 ≤ (values.flatMap encodeArrayItem).length :=
    mul_le_length_flatMap (fun item => by cases item <;> simp [encodeArrayItem]) values
  rw [encodeArrayBody, List.length_append] at h
  omega

theorem readable_of_decodeResponse {response : FastResponse} {rest : Bytes}
    (h : decodeResponse (encodeResponse response ++ rest) =
      .ok (some (response, (encodeResponse response).length))) : Readable response := by
  rw [length_encodeResponse, encodeResponse, List.append_assoc, decodeResponse_header] at h
  split_ifs at h with hshort
  · cases Except.ok.inj h
  obtain ⟨decoded, hdecoded, hout⟩ := Except.map_eq_ok.mp h
  obtain ⟨rfl, hframe⟩ : decoded = response ∧ _ := Prod.mk.inj (Option.some.inj hout)
  -- The frame is as long as its length field says, so the field holds the length itself.
  have hlen := Nat.add_left_cancel hframe
  have hlt : (encodeResponseBody decoded).length < 2 ^ 32 := by
    rw [← hlen]
    exact Nat.mod_lt _ (by decide)
  refine ⟨hlt, fun values hvalues => ?_⟩
  subst hvalues
  by_contra hcount
  rw [hlen, List.take_left] at hdecoded
  have hrefused := decodeArrayBody_encode_of_lt (Nat.lt_of_not_le hcount)
    (length_lt_of_encodeArrayBody hlt)
  have hnone : FastResponse.array <$> decodeArrayBody (encodeArrayBody values) =
      .ok (.array values) := hdecoded
  rw [hrefused] at hnone
  cases hnone

namespace ServerWire

variable (out : Bytes)

def writeFastOk : Bytes := out ++ [0xFB, 2, 0, 0, 0, 0, 0, 0]

def writeFastNull : Bytes := out ++ [0xFB, 2, 1, 0, 0, 0, 0, 0]

def writeFastError (message : Bytes) : Bytes :=
  out ++ ([0xFB, 2, 2, 0] ++ leBytes 4 message.length) ++ message

def writeFastInteger (value : Int64) : Bytes :=
  out ++ [0xFB, 2, 3, 0, 8, 0, 0, 0] ++ leBytes 8 value.toUInt64.toNat

def writeFastFloat (bits : UInt64) : Bytes :=
  out ++ [0xFB, 2, 7, 0, 8, 0, 0, 0] ++ leBytes 8 bits.toNat

/-- The buffer after the header and the count, and where the array starts. -/
def beginFastArray (len : ℕ) : Bytes × ℕ :=
  (out ++ [0xFB, 2, 6, 0, 0, 0, 0, 0] ++ leBytes 4 len, out.length)

def writeFastArrayItem (value : Option Bytes) : Bytes :=
  match value with
  | some value => out ++ leBytes 4 value.length ++ value
  | none => out ++ leBytes 4 (2 ^ 32 - 1)

/-- Writes the length of the body over the placeholder in the header. -/
def finishFastArray (start : ℕ) : Bytes :=
  out.take (start + 4) ++ leBytes 4 (out.length - start - 8) ++ out.drop (start + 8)

def writeFastOwnedArray (values : List (Option Bytes)) : Bytes :=
  let (begun, start) := beginFastArray out values.length
  finishFastArray (values.foldl writeFastArrayItem begun) start

theorem foldl_writeFastArrayItem (values : List (Option Bytes)) (out : Bytes) :
    values.foldl writeFastArrayItem out = out ++ values.flatMap encodeArrayItem := by
  induction values generalizing out with
  | nil => simp
  | cons value values ih =>
    rw [List.foldl_cons, ih, List.flatMap_cons, ← List.append_assoc]
    cases value <;> simp [writeFastArrayItem, encodeArrayItem]

/-- An array written item by item is the encoding of the array. -/
theorem writeFastOwnedArray_eq (values : List (Option Bytes)) :
    writeFastOwnedArray out values = out ++ encodeResponse (.array values) := by
  have hbegun : values.foldl writeFastArrayItem (beginFastArray out values.length).1 =
      (out ++ [0xFB, 2, 6, 0]) ++ ([0, 0, 0, 0] ++ encodeArrayBody values) := by
    rw [foldl_writeFastArrayItem]
    simp [beginFastArray, encodeArrayBody]
  have htake : ((out ++ [0xFB, 2, 6, 0]) ++ ([0, 0, 0, 0] ++ encodeArrayBody values)).take
      (out.length + 4) = out ++ [0xFB, 2, 6, 0] := List.take_left' (by simp)
  have hdrop : ((out ++ [0xFB, 2, 6, 0]) ++ ([0, 0, 0, 0] ++ encodeArrayBody values)).drop
      (out.length + 8) = encodeArrayBody values := by
    rw [← List.append_assoc]
    exact List.drop_left' (by simp)
  show finishFastArray (values.foldl writeFastArrayItem (beginFastArray out values.length).1)
    out.length = _
  rw [hbegun, finishFastArray, htake, hdrop]
  have hlen : ((out ++ [0xFB, 2, 6, 0]) ++ ([0, 0, 0, 0] ++ encodeArrayBody values)).length -
      out.length - 8 = (encodeArrayBody values).length := by
    simp only [List.length_append, List.length_cons, List.length_nil]
    omega
  rw [hlen]
  simp [encodeResponse, encodeResponseBody, fastHeader, responseStatus, fastResponseMagic,
    fastProtocolVersion]

/-- What the server answers with one of its writers. -/
inductive Reply where
  | ok
  | null
  | error (message : Bytes)
  | integer (value : Int64)
  | value (bytes : Bytes)
  | array (values : List (Option Bytes))
  | float (bits : UInt64)

def Reply.response : Reply → FastResponse
  | .ok => .ok
  | .null => .null
  | .error message => .error message
  | .integer number => .integer number
  | .value bytes => .value bytes
  | .array values => .array values
  | .float bits => .float bits

def Reply.write : Reply → Bytes
  | .ok => writeFastOk out
  | .null => writeFastNull out
  | .error message => writeFastError out message
  | .integer number => writeFastInteger out number
  | .value bytes => writeFastValue out bytes
  | .array values => writeFastOwnedArray out values
  | .float bits => writeFastFloat out bits

/-- The writers append the encoding of the response. -/
theorem Reply.write_eq (reply : Reply) :
    reply.write out = out ++ encodeResponse reply.response := by
  cases reply with
  | ok | null => rfl
  | error | value => exact List.append_assoc ..
  | array values => exact writeFastOwnedArray_eq out values
  | integer =>
    simp only [Reply.write, Reply.response, writeFastInteger, encodeResponse, encodeResponseBody,
      length_leBytes, List.append_assoc]
    rfl
  | float =>
    simp only [Reply.write, Reply.response, writeFastFloat, encodeResponse, encodeResponseBody,
      length_leBytes, List.append_assoc]
    rfl

end ServerWire

/-- Every reply of the server is the encoding of a response, and a response is read back, with the
length of its frame, exactly when its body fits the length field and it is not an array of more
items than the decoder takes. -/
theorem response_roundTrip_iff (reply : ServerWire.Reply) (out : Bytes) (response : FastResponse)
    (rest : Bytes) :
    reply.write out = out ++ encodeResponse reply.response ∧
      (decodeResponse (encodeResponse response ++ rest) =
        .ok (some (response, (encodeResponse response).length)) ↔ Readable response) :=
  ⟨reply.write_eq out, readable_of_decodeResponse, fun h => decodeResponse_encode h rest⟩

/-- The decoder never sees the items of an array that is too long. -/
theorem decodeResponse_longArray (hcount : fastMaxCollectionItems < values.length)
    (hbody : (encodeArrayBody values).length < 2 ^ 32) :
    decodeResponse (encodeResponse (.array values)) =
      .error "fast array count exceeds remaining body" := by
  have hrefused := decodeArrayBody_encode_of_lt hcount (length_lt_of_encodeArrayBody hbody)
  have hlen : (encodeResponseBody (.array values)).length % 2 ^ 32 =
      (encodeResponseBody (.array values)).length := Nat.mod_eq_of_lt hbody
  rw [encodeResponse, decodeResponse_header, hlen, if_neg (lt_irrefl _), List.take_length]
  show Except.map _ (FastResponse.array <$> decodeArrayBody (encodeArrayBody values)) = _
  rw [hrefused]
  rfl

/-- One item more than the decoder takes: the reply of the server is refused. -/
theorem longArray_refused :
    decodeResponse ((ServerWire.Reply.array (List.replicate 65537 none)).write []) =
      .error "fast array count exceeds remaining body" := by
  rw [ServerWire.Reply.write_eq, List.nil_append]
  refine decodeResponse_longArray ?_ ?_
  · rw [List.length_replicate]
    decide
  · rw [encodeArrayBody, List.length_append, length_leBytes, List.flatMap_replicate,
      List.length_flatten, List.map_replicate, List.sum_replicate_nat]
    decide

end ShardKv.FastCodec
