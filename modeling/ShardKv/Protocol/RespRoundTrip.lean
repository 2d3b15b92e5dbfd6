import ShardKv.Protocol.RespStability

/-!
# What RESP frames are decoded to

The encoding of a frame within the limits of the codec is decoded to the frame, whatever
follows it, unless the smallest 64-bit number or a verbatim string with a colon in its format
is somewhere in it: the first is negated after it was read, the second splits at the first
colon. The induction is on the depth, with both outcomes at once, since a frame is refused
when one of its children is.
-/
namespace ShardKv

open ShardKv.Frame List

namespace Frame

def children : Frame → List Frame
  | .array items | .set items | .push items => items
  | .map items => items.flatMap fun item => [item.1, item.2]
  | .attribute attributes data => (attributes.flatMap fun item => [item.1, item.2]) ++ [data]
  | _ => []

/-- No chain of children is longer. -/
def NestsAtMost : ℕ → Frame → Prop
  | 0, frame => frame.children = []
  | depth + 1, frame => ∀ child ∈ frame.children, NestsAtMost depth child

/-- A property of the frame and of all parts of it, at any depth. -/
def Everywhere (property : Frame → Prop) (frame : Frame) : Prop :=
  ∀ part, Relation.ReflTransGen (fun whole part => part ∈ whole.children) frame part → property part

theorem everywhere_iff {property : Frame → Prop} {frame : Frame} : frame.Everywhere property ↔
    property frame ∧ ∀ child ∈ frame.children, child.Everywhere property := by
  constructor
  · intro h
    exact ⟨h frame .refl, fun child hchild part hpart => h part (.head hchild hpart)⟩
  · rintro ⟨hframe, hchildren⟩ part hpart
    rcases Relation.ReflTransGen.cases_head hpart with rfl | ⟨child, hchild, hrest⟩
    · exact hframe
    · exact hchildren child hchild part hrest

section Leaves

variable {frame : Frame} (hleaf : frame.children = [])

include hleaf

theorem nestsAtMost_leaf (depth : ℕ) : frame.NestsAtMost depth := by
  cases depth with
  | zero => exact hleaf
  | succ =>
    intro child hchild
    rw [hleaf] at hchild
    exact absurd hchild not_mem_nil

theorem everywhere_leaf {property : Frame → Prop} (h : property frame) :
    frame.Everywhere property := by
  rw [everywhere_iff, hleaf]
  exact ⟨h, fun _ hchild => absurd hchild not_mem_nil⟩

end Leaves
end Frame

namespace RespCodec

open Incremental
variable {n : ℕ} {format : Utf8} {child : Incremental Frame}

theorem toNat_digit {digit : ℕ} (h : digit < 10) : ((48 + digit).toUInt8).toNat = 48 + digit :=
  toNat_toUInt8_of_lt (by omega)

theorem digitsValue_reverse {digits : List ℕ} (h : ∀ digit ∈ digits, digit < 10) :
    digitsValue 0 (digits.reverse.map fun digit => (48 + digit).toUInt8) =
      Nat.ofDigits 10 digits := by
  induction digits with
  | nil => rfl
  | cons digit digits ih =>
    have hdigit := h digit mem_cons_self
    have htail := ih fun digit hdigit => h digit (mem_cons_of_mem _ hdigit)
    rw [digitsValue] at htail ⊢
    rw [reverse_cons, map_append, foldl_append, htail, Nat.ofDigits_cons]
    simp only [map_cons, map_nil, foldl_cons, foldl_nil, toNat_digit hdigit]
    omega

theorem digitsValue_decimalBytes (n : ℕ) : digitsValue 0 (decimalBytes n) = n := by
  rw [decimalBytes]
  split_ifs with hzero
  · rw [hzero]
    rfl
  · rw [digitsValue_reverse fun digit hdigit => Nat.digits_lt_base (by decide) hdigit,
      Nat.ofDigits_digits]

theorem isDigit_decimalBytes {byte : UInt8} (h : byte ∈ decimalBytes n) : isDigit byte = true := by
  rw [decimalBytes] at h
  split_ifs at h
  · rw [mem_singleton.mp h]
    rfl
  · obtain ⟨digit, hdigit, rfl⟩ := mem_map.mp h
    have hlt : digit < 10 := Nat.digits_lt_base (by decide) (mem_reverse.mp hdigit)
    rw [isDigit_iff, toNat_digit hlt]
    omega

theorem decimalBytes_ne_nil (n : ℕ) : decimalBytes n ≠ [] := by
  rw [decimalBytes]
  split_ifs with hzero
  · exact cons_ne_nil _ _
  · simpa [Nat.digits_eq_nil_iff_eq_zero] using hzero

theorem parseAsciiInt_decimalBytes (h : n ≤ maxInt64) :
    parseAsciiInt (decimalBytes n) = .ok (n : ℤ) := by
  rw [parseAsciiInt_digits (decimalBytes_ne_nil n) fun _ => isDigit_decimalBytes,
    digitsValue_decimalBytes, if_pos h]

/-- The value under a sign is bounded like one without, so that the smallest number is refused. -/
theorem parseAsciiInt_negative (n : ℕ) : parseAsciiInt (45 :: decimalBytes n) =
    if n ≤ maxInt64 then .ok (-(n : ℤ)) else .error "RESP integer overflow" := by
  have hsign : splitSign (45 :: decimalBytes n) = (true, decimalBytes n) := rfl
  simp only [parseAsciiInt, hsign, if_neg (decimalBytes_ne_nil n)]
  rw [parseDigits_eq (fun _ => isDigit_decimalBytes) 0 (Nat.zero_le _), digitsValue_decimalBytes]
  by_cases hfits : n ≤ maxInt64
  · simp only [if_pos hfits, if_true]
  · simp only [if_neg hfits]

theorem parseAsciiInt_integerBytes {value : Int64} (h : value ≠ Int64.minValue) :
    parseAsciiInt (integerBytes value.toInt) = .ok value.toInt := by
  have hlt := value.toInt_lt
  have hle := value.le_toInt
  have hne : value.toInt ≠ -2 ^ 63 := fun heq => h (Int64.toInt_inj.mp heq)
  rw [integerBytes]
  split_ifs with hneg
  · rw [parseAsciiInt_negative, if_pos (by rw [maxInt64]; omega)]
    congr 1
    omega
  · rw [parseAsciiInt_decimalBytes (by rw [maxInt64]; omega)]
    congr 1
    omega

theorem cr_not_mem_integerBytes (value : ℤ) : 13 ∉ integerBytes value := by
  have hdigits : 13 ∉ decimalBytes value.natAbs := cr_not_mem_digits fun _ => isDigit_decimalBytes
  rw [integerBytes]
  split_ifs
  · rw [mem_cons, not_or]
    exact ⟨by decide, hdigits⟩
  · exact hdigits

theorem completes_parseIsizeLine (h : n ≤ maxInt64) :
    Completes parseIsizeLine (decimalBytes n ++ crlf) ((n : ℤ), (decimalBytes n).length + 2) := by
  rw [parseIsizeLine_eq]
  exact completes_parseIntLine (cr_not_mem_digits fun _ => isDigit_decimalBytes)
    (parseAsciiInt_decimalBytes h)

def OneLine (text : Bytes) : Prop := 13 ∉ text ∧ 10 ∉ text

theorem fromUtf8_bytes (text : Utf8) (what : String) : fromUtf8 text.bytes what = .ok text := by
  rw [fromUtf8, dif_pos text.valid]

theorem completes_parseLine {text : Utf8} (h : OneLine text.bytes) :
    Completes parseLine (text.bytes ++ crlf) text :=
  (completes_line h.1).bindCheck (fromUtf8_bytes text _)

theorem completes_payload (content : Bytes) (missing : String) :
    Completes (payload content.length missing) (content ++ crlf) content := by
  have htake := completes_take (content ++ crlf)
  rw [length_append] at htake
  refine htake.bindCheck (f := fun chunk => if chunk.drop content.length ≠ crlf
    then .error missing else .ok (chunk.take content.length)) ?_
  rw [drop_left, if_neg (not_not.mpr rfl), take_left]

/-- A blob: its length, then what the length leads to. -/
theorem settles_blob {α : Type} {next : ℤ × ℕ → Incremental α} {content : Bytes} {value : α}
    {condition : Prop} (h : content.length ≤ maxInt64)
    (hnext : ∀ consumed, Settles condition (next (content.length, consumed)) (content ++ crlf)
      value) :
    Settles condition (parseIsizeLine >>= next)
      (decimalBytes content.length ++ crlf ++ content ++ crlf) value := by
  rw [append_assoc _ content]
  exact (completes_parseIsizeLine h).bindSettles (hnext _)

theorem encodeItems_eq (items : List Frame) : encodeItems items = items.flatMap encode := by
  induction items with
  | nil => rw [encodeItems, flatMap_nil]
  | cons item items ih => rw [encodeItems, ih, flatMap_cons]

theorem encodePairs_eq (items : List (Frame × Frame)) :
    encodePairs items = items.flatMap encodePair := by
  induction items with
  | nil => rw [encodePairs, flatMap_nil]
  | cons item items ih => rw [encodePairs, ih, flatMap_cons]

theorem respMinFrameBytes_le_encode (frame : Frame) :
    respMinFrameBytes ≤ (encode frame).length := by
  cases frame <;>
    simp only [encode, encodeLine, encodeBlob, containerHeader, crlf, respMinFrameBytes,
      length_append, length_cons, length_nil] <;> omega

theorem two_mul_le_encodePair (item : Frame × Frame) :
    2 * respMinFrameBytes ≤ (encodePair item).length := by
  have hkey := respMinFrameBytes_le_encode item.1
  have hvalue := respMinFrameBytes_le_encode item.2
  rw [encodePair, length_append]
  omega

section Aggregates

variable {α : Type} {framesPerItem : ℕ} {item : Incremental α} {encodeItem : α → Bytes}
  {condition : α → Prop} {items : List α}

/-- The items of an aggregate that has no more of them than the limit. -/
theorem settles_countedItems (label : String) (hcount : items.length ≤ respMaxContainerItems)
    (hleast : ∀ item, framesPerItem * respMinFrameBytes ≤ (encodeItem item).length)
    (hitems : ∀ value ∈ items, Settles (condition value) item (encodeItem value) value) :
    Settles (∀ value ∈ items, condition value)
      (validateContainerCount (items.length : ℤ) framesPerItem label (replicateM item))
      (items.flatMap encodeItem) items := by
  rw [validateContainerCount, if_neg (by omega), if_neg (by omega), Int.toNat_natCast, mul_assoc]
  exact (settles_replicate hitems).need (mul_le_length_flatMap hleast items)

theorem settles_parseContainer {label : String} {negative : Incremental Frame}
    {make : List α → Frame} (hcount : items.length ≤ respMaxContainerItems)
    (hleast : ∀ item, framesPerItem * respMinFrameBytes ≤ (encodeItem item).length)
    (hitems : ∀ value ∈ items, Settles (condition value) item (encodeItem value) value) :
    Settles (∀ value ∈ items, condition value)
      (parseContainer framesPerItem label item negative make)
      (decimalBytes items.length ++ crlf ++ items.flatMap encodeItem) (make items) := by
  have hfits : items.length ≤ maxInt64 := hcount.trans (by decide)
  have hmade := (settles_countedItems label hcount hleast hitems).map make
  refine (completes_parseIsizeLine hfits).bindSettles ?_
  simpa only [if_neg (Int.not_lt.mpr (Int.natCast_nonneg _))] using hmade

end Aggregates

/-- The limits of the codec, and of the machine for the length of a blob. -/
def WithinLimits : Frame → Prop
  | .simpleString text | .error text => OneLine text.bytes
  | .double text => OneLine text.bytes ∧ isDoubleText text.bytes = true
  | .bigNumber text => OneLine text.bytes ∧ isBigNumberText text.bytes = true
  | .blobString value => value.length ≤ maxInt64
  | .verbatimString format value => format.bytes.length = 3 ∧ value.length + 4 ≤ maxInt64
  | .array items | .set items | .push items => items.length ≤ respMaxContainerItems
  | .map items => items.length ≤ respMaxContainerItems
  | .attribute attributes _ => attributes.length ≤ respMaxContainerItems
  | .integer _ | .null | .boolean _ => True

/-- Not the smallest number, and no colon in the format of a verbatim string. -/
def Recoverable : Frame → Prop
  | .integer value => value ≠ Int64.minValue
  | .verbatimString format _ => 58 ∉ format.bytes
  | _ => True

theorem parseIntLine_error {text : Bytes} {message : String} (hline : 13 ∉ text)
    (herror : parseAsciiInt text = .error message) (rest : Bytes) :
    parseIntLine (text ++ crlf ++ rest) = .error message := by
  rw [parseIntLine, bind_of_complete (completes_line hline rest), herror]
  rfl

theorem parseAsciiInt_min :
    parseAsciiInt (integerBytes Int64.minValue.toInt) = .error "RESP integer overflow" := by
  have htext : integerBytes Int64.minValue.toInt = 45 :: decimalBytes (2 ^ 63) := rfl
  rw [htext, parseAsciiInt_negative, if_neg (by decide)]

theorem settles_integer (value : Int64) : Settles (value ≠ Int64.minValue) parseInteger
    (integerBytes value.toInt ++ crlf) (.integer value) where
  completes hne := by
    have hline := completes_parseIntLine (cr_not_mem_integerBytes value.toInt)
      (parseAsciiInt_integerBytes hne)
    have hparsed := hline.bindPure (f := fun parsed => integer (Int64.ofInt parsed.1))
    rwa [Int64.ofInt_toInt] at hparsed
  fails hmin := by
    rw [not_not] at hmin
    subst hmin
    intro rest
    exact ⟨_, bind_of_error (parseIntLine_error (cr_not_mem_integerBytes _) parseAsciiInt_min rest)⟩

/-- The first colon is the one after the format, or one in it. -/
theorem findIdx_colon (format value : Bytes) : ∃ colon ≤ format.length,
    (format ++ 58 :: value).findIdx? (· == 58) = some colon ∧
      (58 ∉ format ↔ colon = format.length) := by
  induction format with
  | nil => exact ⟨0, le_rfl, rfl, by simp⟩
  | cons byte format ih =>
    obtain ⟨colon, hle, hfound, hiff⟩ := ih
    by_cases hbyte : byte = 58
    · exact ⟨0, Nat.zero_le _, by simp [hbyte, List.findIdx?_cons], by simp [hbyte]⟩
    · refine ⟨colon + 1, by simpa using hle, ?_, ?_⟩
      · rw [cons_append, List.findIdx?_cons, hfound]
        simp [hbyte]
      · rw [mem_cons, length_cons, Nat.add_right_cancel_iff, ← hiff]
        simp [Ne.symm hbyte]

theorem verbatimOf_of_not_mem (hformat : format.bytes.length = 3) (hcolon : 58 ∉ format.bytes)
    (value : Bytes) :
    verbatimOf (format.bytes ++ 58 :: value) = .ok (.verbatimString format value) := by
  obtain ⟨colon, -, hfound, hiff⟩ := findIdx_colon format.bytes value
  have hthree : colon = 3 := (hiff.mp hcolon).trans hformat
  have hdrop : (format.bytes ++ 58 :: value).drop (3 + 1) = value := by
    rw [← hformat, drop_append]
    simp
  rw [verbatimOf, hfound]
  simp only [hthree, ne_eq, not_true_eq_false, if_false]
  rw [take_left' hformat, hdrop, fromUtf8_bytes]
  rfl

theorem verbatimOf_of_mem (hformat : format.bytes.length = 3) (hcolon : 58 ∈ format.bytes)
    (value : Bytes) : verbatimOf (format.bytes ++ 58 :: value) =
      .error "RESP3 verbatim string format must be exactly 3 bytes" := by
  obtain ⟨colon, -, hfound, hiff⟩ := findIdx_colon format.bytes value
  have hthree : colon ≠ 3 := fun heq => hiff.mpr (heq.trans hformat.symm) hcolon
  rw [verbatimOf, hfound]
  simp only [if_pos hthree]

theorem settles_blobString {value : Bytes} (hlen : value.length ≤ maxInt64) :
    Settles True parseBlobString (decimalBytes value.length ++ crlf ++ value ++ crlf)
      (.blobString value) := by
  refine settles_blob hlen fun consumed => ?_
  simp only [Int.toNat_natCast]
  rw [if_neg (by omega)]
  exact ((completes_payload value _).map blobString).settles

theorem settles_verbatim {value : Bytes} (hformat : format.bytes.length = 3)
    (hlen : value.length + 4 ≤ maxInt64) : Settles (58 ∉ format.bytes) parseVerbatimString
      (decimalBytes (format.bytes ++ 58 :: value).length ++ crlf ++ (format.bytes ++ 58 :: value) ++
        crlf) (.verbatimString format value) := by
  have hlength : (format.bytes ++ 58 :: value).length = value.length + 4 := by
    rw [length_append, length_cons, hformat]
    omega
  have hcontent := completes_payload (format.bytes ++ 58 :: value)
    "verbatim string missing CRLF terminator"
  refine settles_blob (hlength ▸ hlen) fun consumed => ?_
  simp only [Int.toNat_natCast]
  rw [if_neg (by omega)]
  exact ⟨fun hcolon => hcontent.bindCheck (verbatimOf_of_not_mem hformat hcolon value),
    fun hcolon => hcontent.bindCheck_fails (verbatimOf_of_mem hformat (not_not.mp hcolon) value)⟩

theorem forall_mem_pairs {items : List (Frame × Frame)} {property : Frame → Prop} :
    (∀ child ∈ items.flatMap fun item => [item.1, item.2], property child) ↔
      ∀ item ∈ items, property item.1 ∧ property item.2 := by
  constructor
  · intro h item hitem
    have hmem : ∀ part ∈ [item.1, item.2], property part :=
      fun part hpart => h part (mem_flatMap.mpr ⟨item, hitem, hpart⟩)
    exact ⟨hmem _ (by simp), hmem _ (by simp)⟩
  · intro h part hpart
    obtain ⟨item, hitem, hmem⟩ := mem_flatMap.mp hpart
    rcases mem_pair.mp hmem with rfl | rfl
    · exact (h item hitem).1
    · exact (h item hitem).2

theorem completes_anyByte (byte : UInt8) : Completes anyByte [byte] byte := fun _ => rfl

theorem settles_parseAttribute {attributes : List (Frame × Frame)} {data : Frame}
    {conditions : Frame × Frame → Prop} {condition : Prop}
    (hcount : attributes.length ≤ respMaxContainerItems)
    (hpairs : ∀ item ∈ attributes, Settles (conditions item) (parsePair child) (encodePair item) item)
    (hdata : Settles condition child (encode data) data) :
    Settles ((∀ item ∈ attributes, conditions item) ∧ condition) (parseAttribute child)
      (decimalBytes attributes.length ++ crlf ++ (attributes.flatMap encodePair ++ encode data))
      (.attribute attributes data) := by
  have hfits : attributes.length ≤ maxInt64 := hcount.trans (by decide)
  have hitems := settles_countedItems "attribute" hcount two_mul_le_encodePair hpairs
  refine (completes_parseIsizeLine hfits).bindSettles ?_
  exact hitems.bind hdata.bindPure

/-- One level: a frame is decoded or refused as its children are. -/
theorem settles_parseMarked {frame : Frame} (hlimits : WithinLimits frame)
    (hchildren : ∀ part ∈ frame.children, Settles (part.Everywhere Recoverable) child
      (encode part) part) :
    Settles (frame.Everywhere Recoverable) (anyByte >>= parseMarked child) (encode frame)
      frame := by
  have hmarked {condition : Prop} (marker : UInt8) {bytes : Bytes}
      (h : Settles condition (parseMarked child marker) bytes frame)
      (hiff : frame.Everywhere Recoverable ↔ condition := by
        rw [everywhere_iff]
        simp [Recoverable, children]) :
      Settles (frame.Everywhere Recoverable) (anyByte >>= parseMarked child) (marker :: bytes)
        frame :=
    ((completes_anyByte marker).bindSettles h).congr hiff
  have hitems : ∀ {items : List Frame}, frame.children = items → ∀ item ∈ items,
      Settles (item.Everywhere Recoverable) child (encode item) item :=
    fun heq => heq ▸ hchildren
  have hpairs : ∀ {items : List (Frame × Frame)},
      (∀ part ∈ items.flatMap fun item => [item.1, item.2], part ∈ frame.children) →
      ∀ item ∈ items, Settles (item.1.Everywhere Recoverable ∧ item.2.Everywhere Recoverable)
        (parsePair child) (encodePair item) item := by
    intro items hsub item hitem
    have hboth := forall_mem_pairs.mp fun part hpart => hchildren part (hsub part hpart)
    rw [encodePair]
    exact (hboth item hitem).1.bind (hboth item hitem).2.bindPure
  have hone : ∀ item, 1 * respMinFrameBytes ≤ (encode item).length :=
    fun item => (one_mul respMinFrameBytes).symm ▸ respMinFrameBytes_le_encode item
  cases frame with
  | simpleString =>
    have hline := (completes_parseLine hlimits).map simpleString
    exact hmarked 43 hline.settles
  | error =>
    have hline := (completes_parseLine hlimits).map error
    exact hmarked 45 hline.settles
  | double =>
    have hline := (completes_parseLine hlimits.1).bindCheck (f := doubleOf)
      (by rw [doubleOf, if_pos hlimits.2])
    exact hmarked 44 hline.settles
  | bigNumber text =>
    have hline := (completes_parseLine hlimits.1).bindCheck
      (f := fun text => if isBigNumberText text.bytes then .ok (bigNumber text)
        else .error "invalid RESP3 big number value") (by rw [if_pos hlimits.2])
    exact hmarked 40 hline.settles
  | null =>
    have hnull : Completes parseNull crlf .null := fun _ => rfl
    exact hmarked 95 hnull.settles
  | boolean value =>
    have hboolean : Completes parseBoolean ((if value then 116 else 102) :: crlf)
        (.boolean value) := fun _ => by cases value <;> rfl
    exact hmarked 35 hboolean.settles
  | integer value => exact hmarked 58 (settles_integer value)
  | blobString =>
    rw [encode, encodeBlob, containerHeader]
    exact hmarked 36 (settles_blobString hlimits)
  | verbatimString =>
    rw [encode, encodeBlob, containerHeader]
    exact hmarked 61 (settles_verbatim hlimits.1 hlimits.2)
  | array =>
    rw [encode, encodeItems_eq]
    exact hmarked 42 (settles_parseContainer hlimits hone (hitems rfl))
  | set =>
    rw [encode, encodeItems_eq]
    exact hmarked 126 (settles_parseContainer hlimits hone (hitems rfl))
  | push =>
    rw [encode, encodeItems_eq]
    exact hmarked 62 (settles_parseContainer hlimits hone (hitems rfl))
  | map =>
    rw [encode, encodePairs_eq]
    have hparts := hpairs fun part hpart => hpart
    refine hmarked 37 (settles_parseContainer hlimits two_mul_le_encodePair hparts) ?_
    rw [everywhere_iff, children, forall_mem_pairs]
    simp [Recoverable]
  | «attribute» attributes data =>
    rw [encode, encodePairs_eq, append_assoc]
    have hparts := settles_parseAttribute hlimits (hpairs fun part hpart => mem_append_left _ hpart)
      (hchildren data (mem_append_right _ (mem_singleton_self data)))
    refine hmarked 124 hparts ?_
    rw [everywhere_iff, children, forall_mem_append, forall_mem_pairs]
    simp [Recoverable]

/-- All levels. A frame without children is within one level, whatever the levels below. -/
theorem settles_parseFrame {depth : ℕ} {frame : Frame} (hnests : frame.NestsAtMost depth)
    (hlimits : frame.Everywhere WithinLimits) :
    Settles (frame.Everywhere Recoverable) (parseFrame (depth + 1)) (encode frame) frame := by
  induction depth generalizing frame with
  | zero =>
    refine settles_parseMarked (everywhere_iff.mp hlimits).1 fun part hpart => ?_
    rw [show frame.children = [] from hnests] at hpart
    exact absurd hpart not_mem_nil
  | succ depth ih =>
    obtain ⟨hframe, hchildren⟩ := everywhere_iff.mp hlimits
    exact settles_parseMarked hframe fun part hpart => ih (hnests part hpart) (hchildren part hpart)

/-- A frame within the limits is decoded from its encoding, whatever follows, exactly when
nothing in it is the smallest number or a verbatim string with a colon in its format. -/
theorem decode_encode_iff (frame : Frame) (hnests : frame.NestsAtMost respMaxNestingDepth)
    (hlimits : frame.Everywhere WithinLimits) (rest : Bytes) :
    decode (encode frame ++ rest) = .ok (some (frame, (encode frame).length)) ↔
      frame.Everywhere Recoverable := by
  have hsettles := settles_parseFrame hnests hlimits
  constructor
  · intro hdecoded
    by_contra hnot
    obtain ⟨message, hmessage⟩ := hsettles.fails hnot rest
    rw [decode, result, hmessage] at hdecoded
    cases hdecoded
  · intro hcondition
    rw [decode, result_of_complete (hsettles.completes hcondition rest), length_append,
      Nat.add_sub_cancel]

/-- A command, as a client sends it. -/
theorem decode_encode_command :
    decode (encode (.array [.blobString [71, 69, 84], .integer 7]) ++ [36]) =
      .ok (some (.array [.blobString [71, 69, 84], .integer 7],
        (encode (.array [.blobString [71, 69, 84], .integer 7])).length)) := by
  refine (decode_encode_iff _ ?_ ?_ _).mpr ?_
  · intro child hchild
    rcases mem_pair.mp hchild with rfl | rfl <;> exact nestsAtMost_leaf rfl _
  · refine everywhere_iff.mpr ⟨show 2 ≤ respMaxContainerItems by decide,
      fun child hchild => ?_⟩
    rcases mem_pair.mp hchild with rfl | rfl
    · exact everywhere_leaf rfl (show 3 ≤ maxInt64 by decide)
    · exact everywhere_leaf rfl trivial
  · refine everywhere_iff.mpr ⟨trivial, fun child hchild => ?_⟩
    rcases mem_pair.mp hchild with rfl | rfl
    · exact everywhere_leaf rfl trivial
    · exact everywhere_leaf rfl (show (7 : Int64) ≠ Int64.minValue by decide)

/-- The smallest number is refused. -/
theorem minInteger_refused : Frame.NestsAtMost respMaxNestingDepth (.integer Int64.minValue) ∧
      Frame.Everywhere WithinLimits (.integer Int64.minValue) ∧
      decode (encode (.integer Int64.minValue)) = .error "RESP integer overflow" := by
  refine ⟨nestsAtMost_leaf rfl _, everywhere_leaf rfl trivial, ?_⟩
  have hline := parseIntLine_error (cr_not_mem_integerBytes _) parseAsciiInt_min []
  have hmarked : parseFrame (respMaxNestingDepth + 1) (encode (.integer Int64.minValue)) =
      parseInteger (integerBytes Int64.minValue.toInt ++ crlf ++ []) := rfl
  rw [decode, result, hmarked, parseInteger, bind_of_error hline]

end RespCodec
end ShardKv
