import ShardKv.Protocol.RespRoundTrip

/-!
# Three parsers of commands

A command is decoded as its parts, as the positions of its parts, or by the server's direct
parser, which knows only short counts and blobs. The first two agree on every buffer. What the
direct parser accepts the first decodes to the same parts; what it leaves to the others is not
an error.

Positions in the direct parser are kept as the bytes that are left.
-/
namespace ShardKv

open Option

/-- Both wait, both refuse with one message, or both complete at one place with values that
correspond. -/
inductive Parsed.Alike {α β : Type} (same : α → β → Bytes → Prop) : Parsed α → Parsed β → Prop
  | incomplete : Alike same .incomplete .incomplete
  | error (message : String) : Alike same (.error message) (.error message)
  | complete {value : α} {result : β} {rest : Bytes} (h : same value result rest) :
      Alike same (.complete value rest) (.complete result rest)

namespace Parsed.Alike

open Incremental
variable {α β γ δ : Type} {same : α → β → Bytes → Prop} {same' : γ → δ → Bytes → Prop}
  {first : Incremental α} {second : Incremental β} {next : α → Incremental γ}
  {next' : β → Incremental δ} {input : Bytes}

theorem bind (h : Alike same (first input) (second input))
    (hnext : ∀ value result rest, same value result rest →
      Alike same' (next value rest) (next' result rest)) :
    Alike same' ((first >>= next) input) ((second >>= next') input) := by
  cases hfirst : first input <;> cases hsecond : second input <;> rw [hfirst, hsecond] at h <;>
    cases h
  case incomplete =>
    rw [bind_of_incomplete hfirst, bind_of_incomplete hsecond]
    exact .incomplete
  case error =>
    rw [bind_of_error hfirst, bind_of_error hsecond]
    exact .error _
  case complete hsame =>
    rw [bind_of_complete hfirst, bind_of_complete hsecond]
    exact hnext _ _ _ hsame

variable (first input) in
theorem self : Alike (fun value result rest => value = result ∧ first input = .complete value rest)
      (first input) (first input) := by
  cases first input with
  | incomplete => exact .incomplete
  | error => exact .error _
  | complete => exact .complete ⟨rfl, rfl⟩

/-- A parser beside itself, with something computed from its value. -/
theorem computed {same : α → γ → Bytes → Prop} {f : α → γ}
    (hsame : ∀ value rest, first input = .complete value rest → same value (f value) rest) :
    Alike same (first input) ((first >>= fun value => pure (f value)) input) := by
  cases hfirst : first input with
  | incomplete =>
    rw [bind_of_incomplete hfirst]
    exact .incomplete
  | error message =>
    rw [bind_of_error hfirst]
    exact .error message
  | complete value rest =>
    rw [bind_of_complete hfirst]
    exact .complete (hsame value rest hfirst)

end Parsed.Alike

namespace RespCodec

open Incremental Parsed
variable {consumed : ℕ} {buffer : Bytes}

def spanBytes (buffer : Bytes) (span : ℕ × ℕ) : Bytes := byteSlice buffer span.1 (span.2 - span.1)

/-- The spans lie between two positions, one behind the other. -/
def Ascending (start : ℕ) : List (ℕ × ℕ) → ℕ → Prop
  | [], stop => start ≤ stop
  | span :: spans, stop => start ≤ span.1 ∧ span.1 ≤ span.2 ∧ Ascending span.2 spans stop

theorem Ascending.of_le {start start' : ℕ} {spans : List (ℕ × ℕ)} {stop : ℕ} (hle : start' ≤ start)
    (h : Ascending start spans stop) : Ascending start' spans stop := by
  cases spans with
  | nil => exact hle.trans h
  | cons => exact ⟨hle.trans h.1, h.2⟩

/-- What a part and its span have to do with the buffer. -/
structure PartAt (buffer : Bytes) (cursor : ℕ) (part : Bytes) (found : (ℕ × ℕ) × ℕ)
    (rest : Bytes) : Prop where
  start_le : cursor ≤ found.1.1
  le : found.1.1 ≤ found.1.2
  stop_le : found.1.2 ≤ cursor + found.2
  inside : cursor + found.2 ≤ buffer.length
  rest_eq : rest = buffer.drop (cursor + found.2)
  bytes : spanBytes buffer found.1 = part

theorem partAt_split {lead part rest : Bytes} {cursor : ℕ} (h : cursor ≤ lead.length) :
    PartAt (lead ++ (part ++ (crlf ++ rest))) cursor part
      ((lead.length, lead.length + part.length), lead.length + part.length + 2 - cursor) rest where
  start_le := h
  le := Nat.le_add_right _ _
  stop_le := by dsimp only; omega
  inside := by simp [crlf]; omega
  rest_eq := by
    have hcursor : cursor + (lead.length + part.length + 2 - cursor) =
        (lead ++ part ++ crlf).length := by simp [crlf]; omega
    rw [hcursor, ← List.append_assoc part, ← List.append_assoc lead, ← List.append_assoc lead,
      List.drop_left]
  bytes := by
    rw [spanBytes, byteSlice_append_right _ (Nat.le_refl _), Nat.sub_self, Nat.add_sub_cancel_left]
    exact byteSlice_append_zero _ rfl

theorem line_complete {input text rest : Bytes} (h : line input = .complete text rest) :
    input = text ++ (crlf ++ rest) := by
  rw [line] at h
  split at h
  · cases h
  next stop hstop =>
    obtain ⟨before, after, rfl, rfl, -⟩ := findCrlf_eq_some hstop
    cases h
    rw [List.take_left, ← List.append_assoc, ← List.append_assoc, List.drop_left' (by simp [crlf])]

theorem parseIsizeLine_complete {input rest : Bytes} {value : ℤ}
    (h : parseIsizeLine input = .complete (value, consumed) rest) :
    ∃ header, header.length = consumed ∧ input = header ++ rest := by
  rw [parseIsizeLine_eq, parseIntLine] at h
  obtain ⟨text, between, hline, h⟩ := bind_eq_complete h
  obtain ⟨number, between', hcheck, h⟩ := bind_eq_complete h
  cases hnumber : parseAsciiInt text with
  | error => rw [hnumber] at hcheck; cases hcheck
  | ok =>
    rw [hnumber] at hcheck
    cases hcheck
    cases h
    exact ⟨text ++ crlf, by simp [crlf], by rw [line_complete hline, List.append_assoc]⟩

theorem parseCommandBlob_complete {input part rest : Bytes}
    (h : parseCommandBlob input = .complete (part, consumed) rest) :
    ∃ header, header.length = consumed ∧ input = header ++ (part ++ (crlf ++ rest)) := by
  obtain ⟨⟨length, consumed'⟩, between, hline, hnext⟩ := bind_eq_complete h
  obtain ⟨header, rfl, rfl⟩ := parseIsizeLine_complete hline
  dsimp only at hnext
  split_ifs at hnext
  · cases hnext
  · obtain ⟨part', between', hpayload, hdone⟩ := bind_eq_complete hnext
    cases hdone
    obtain ⟨chunk, between'', htake, hcheck⟩ := bind_eq_complete hpayload
    rw [take] at htake
    split_ifs at htake
    cases htake
    split_ifs at hcheck with hend
    · cases hcheck
    · cases hcheck
      refine ⟨header, rfl, ?_⟩
      rw [not_not] at hend
      rw [← hend, ← List.append_assoc _ (List.drop _ _), List.take_append_drop,
        List.take_append_drop]

theorem parseCommandPart_alike (before input : Bytes) :
    Alike (PartAt (before ++ input) before.length) (parseCommandPart input)
      (parseCommandPartSpan before.length input) := by
  refine (Alike.self anyByte input).bind ?_
  rintro marker _ rest ⟨rfl, hmarker⟩
  have hinput : input = marker :: rest := by
    cases input <;> cases hmarker
    rfl
  subst hinput
  -- a line stands right behind the marker, a blob behind the line with its length
  have hfound (header part after : Bytes) : PartAt
      (before ++ marker :: (header ++ (part ++ (crlf ++ after)))) before.length part
      ((before.length + 1 + header.length, before.length + 1 + header.length + part.length),
        before.length + 1 + header.length + part.length + 2 - before.length) after := by
    have hsplit := @partAt_split (before ++ marker :: header) part after before.length (by simp)
    have hlen : (before ++ marker :: header).length = before.length + 1 + header.length := by
      simp
      omega
    rwa [hlen, List.append_assoc, List.cons_append] at hsplit
  have hline (part after : Bytes) (hpart : line rest = .complete part after) : PartAt
      (before ++ marker :: rest) before.length part ((before.length + 1,
        before.length + 1 + part.length), before.length + 1 + part.length + 2 - before.length)
      after := by
    rw [line_complete hpart]
    exact hfound [] part after
  generalize marker.toNat = code
  split
  next =>
    refine (Alike.self parseCommandBlob rest).bind ?_
    rintro ⟨part, consumed⟩ _ after ⟨rfl, hblob⟩
    obtain ⟨header, rfl, rfl⟩ := parseCommandBlob_complete hblob
    exact .complete (hfound header part after)
  next => exact .computed hline
  next => exact .computed hline
  next => exact .error _

theorem parts_alike (buffer : Bytes) (count : ℕ) : ∀ cursor ≤ buffer.length,
    Alike (fun parts spans rest => parts = spans.map (spanBytes buffer) ∧
        Ascending cursor spans (buffer.length - rest.length))
      (replicateM parseCommandPart count (buffer.drop cursor))
      (parseCommandSpans cursor count (buffer.drop cursor)) := by
  induction count with
  | zero =>
    intro cursor hcursor
    refine .complete ⟨rfl, ?_⟩
    rw [Ascending, List.length_drop]
    omega
  | succ count ih =>
    intro cursor hcursor
    have hpart := parseCommandPart_alike (buffer.take cursor) (buffer.drop cursor)
    rw [List.take_append_drop, List.length_take_of_le hcursor] at hpart
    refine hpart.bind fun part found rest hfound => ?_
    rw [hfound.rest_eq]
    refine (ih _ hfound.inside).bind fun parts spans rest' hspans => .complete ⟨?_, ?_⟩
    · rw [hspans.1, List.map_cons, hfound.bytes]
    · exact ⟨hfound.start_le, hfound.le, hspans.2.of_le hfound.stop_le⟩

theorem parseCommandHeader_complete {rest : Bytes} {count : ℤ}
    (h : parseCommandHeader buffer = .complete (count, consumed) rest) :
    ∃ header, header.length = 1 + consumed ∧ buffer = header ++ rest := by
  obtain ⟨marker, between, hmarker, hnext⟩ := bind_eq_complete h
  split_ifs at hnext
  · cases hnext
  · obtain ⟨⟨count', consumed'⟩, between', hline, hdone⟩ := bind_eq_complete hnext
    dsimp only at hdone
    split_ifs at hdone
    · cases hdone
    · cases hdone
      obtain ⟨header, rfl, rfl⟩ := parseIsizeLine_complete hline
      cases buffer with
      | nil => cases hmarker
      | cons =>
        cases hmarker
        exact ⟨marker :: header, by simp; omega, rfl⟩

theorem commandFrame_alike (buffer : Bytes) :
    Alike (fun parts spans rest => parts = spans.map (spanBytes buffer) ∧
        Ascending 0 spans (buffer.length - rest.length))
      (parseCommandFrame buffer) (parseCommandSpanFrame buffer) := by
  refine (Alike.self parseCommandHeader buffer).bind ?_
  rintro ⟨count, consumed⟩ _ rest ⟨rfl, hheader⟩
  obtain ⟨header, hlen, hbuffer⟩ := parseCommandHeader_complete hheader
  have hrest : rest = buffer.drop (1 + consumed) := by rw [hbuffer, ← hlen, List.drop_left]
  have hinside : 1 + consumed ≤ buffer.length := by
    rw [hbuffer, List.length_append]
    omega
  dsimp only [validateContainerCount]
  split_ifs
  · exact .error _
  · exact .error _
  · dsimp only [need]
    split_ifs
    · exact .incomplete
    · rw [hrest]
      have hparts := parts_alike buffer count.toNat _ hinside
      generalize buffer.drop (1 + consumed) = input at *
      generalize replicateM parseCommandPart count.toNat input = parts at *
      generalize parseCommandSpans (1 + consumed) count.toNat input = spans at *
      cases hparts with
      | incomplete => exact .incomplete
      | error => exact .error _
      | complete h => exact .complete ⟨h.1, h.2.of_le (Nat.zero_le _)⟩

/-- The two decoders return the same, and the spans lie in order inside of what was consumed. -/
theorem decodeCommand_eq_spans (buffer : Bytes) :
    decodeCommand buffer = (decodeCommandSpans buffer).map (Option.map fun found =>
      (found.1.map (spanBytes buffer), found.2)) ∧
    ∀ spans consumed, decodeCommandSpans buffer = .ok (some (spans, consumed)) →
      Ascending 0 spans consumed ∧ consumed ≤ buffer.length := by
  have halike := commandFrame_alike buffer
  simp only [decodeCommand, decodeCommandSpans, result]
  generalize parseCommandFrame buffer = parts at *
  generalize parseCommandSpanFrame buffer = spans at *
  cases halike with
  | incomplete | error =>
    refine ⟨rfl, ?_⟩
    rintro _ _ ⟨⟩
  | complete h =>
    refine ⟨by rw [h.1]; rfl, ?_⟩
    rintro spans consumed ⟨⟩
    exact ⟨h.2, Nat.sub_le _ _⟩

/-- The digits that may follow a value, up to the line end. The source writes out the first
four. -/
def readShortInt (value consumed : ℕ) : ℕ → Bytes → Option (ℕ × ℕ)
  | rounds + 1, byte :: rest =>
    if byte = 13 then if rest.head? = some 10 then some (value, consumed + 2) else none
    else if !isDigit byte then none
    else readShortInt (value * 10 + (byte.toNat - 48)) (consumed + 1) rounds rest
  | _, _ => none

def readShortIntHeaderNoDollar : Bytes → Option (ℕ × ℕ)
  | [] => none
  | byte :: rest => if !isDigit byte then none else readShortInt (byte.toNat - 48) 1 9 rest

/-- `read_short_int_header` and `read_resp_array_header`, which differ in the marker. -/
def readMarkedHeader (marker : UInt8) : Bytes → Option (ℕ × ℕ)
  | [] => none
  | byte :: rest =>
    if rest.length < 3 || byte ≠ marker then none
    else (readShortIntHeaderNoDollar rest).map fun found => (found.1, 1 + found.2)

/-- An argument and what is left. -/
def readRespBulkArg (buffer : Bytes) : Option (Bytes × Bytes) := do
  let (len, consumed) ← readMarkedHeader 36 buffer
  let rest := buffer.drop consumed
  if rest.length < len + 2 then none
  else if (rest.drop len).take 2 ≠ crlf then none
  else some (rest.take len, rest.drop (len + 2))

def readRespBulkArgs : ℕ → Bytes → Option (List Bytes × Bytes)
  | 0, buffer => some ([], buffer)
  | count + 1, buffer => do
    let (arg, rest) ← readRespBulkArg buffer
    let (args, rest) ← readRespBulkArgs count rest
    return (arg :: args, rest)

def tryRespCommandParts (buffer : Bytes) : Option (ℕ × Bytes × List Bytes) := do
  let (argCount, consumed) ← readMarkedHeader 42 buffer
  if argCount = 0 || 64 < argCount then none
  else
    let (command, rest) ← readRespBulkArg (buffer.drop consumed)
    let (args, rest) ← readRespBulkArgs (argCount - 1) rest
    return (buffer.length - rest.length, command, args)

theorem readShortInt_eq_some {rounds value value' consumed' : ℕ} {input : Bytes}
    (h : readShortInt value consumed rounds input = some (value', consumed')) :
    ∃ digits rest, input = digits ++ (crlf ++ rest) ∧ digits.length < rounds ∧
      (∀ byte ∈ digits, isDigit byte = true) ∧ value' = digitsValue value digits ∧
      consumed' = consumed + digits.length + 2 := by
  induction rounds generalizing value consumed input with
  | zero => cases h
  | succ rounds ih =>
    cases input with
    | nil => cases h
    | cons byte input =>
      rw [readShortInt] at h
      split_ifs at h with hcr hlf hbyte
      · cases h
        obtain ⟨rest, rfl⟩ : ∃ rest, input = 10 :: rest := by
          cases input <;> simp_all
        exact ⟨[], rest, by rw [hcr]; rfl, by simp, by simp, rfl, rfl⟩
      · obtain ⟨digits, rest, rfl, hlen, hdigits, rfl, rfl⟩ := ih h
        refine ⟨byte :: digits, rest, rfl, by simpa using hlen, ?_, rfl, by simp; omega⟩
        rw [List.forall_mem_cons]
        exact ⟨by simpa using hbyte, hdigits⟩

/-- A header that was read is one for the first decoder as well. -/
theorem readMarkedHeader_eq_some {marker : UInt8} {value : ℕ}
    (h : readMarkedHeader marker buffer = some (value, consumed)) :
    ∃ header rest, buffer = marker :: (header ++ rest) ∧ consumed = 1 + header.length ∧
      3 ≤ header.length ∧ Completes parseIsizeLine header ((value : ℤ), header.length) := by
  cases buffer with
  | nil => cases h
  | cons byte buffer =>
    rw [readMarkedHeader] at h
    split_ifs at h with hbyte
    obtain ⟨⟨value', consumed'⟩, hread, hfound⟩ := map_eq_some_iff.mp h
    cases hfound
    cases buffer with
    | nil => cases hread
    | cons first =>
      rw [readShortIntHeaderNoDollar] at hread
      split_ifs at hread with hfirst
      obtain ⟨digits, rest, rfl, hlen, hdigits, rfl, rfl⟩ := readShortInt_eq_some hread
      have hall := List.forall_mem_cons.mpr ⟨by simpa using hfirst, hdigits⟩
      have hvalue : digitsValue (first.toNat - 48) digits = digitsValue 0 (first :: digits) := by
        simp [digitsValue]
      have hline := completes_digits (List.cons_ne_nil _ _) hlen hall
      refine ⟨first :: digits ++ crlf, rest, ?_, by simp [crlf]; omega, by simp [crlf], ?_⟩
      · simp only [Bool.or_eq_true, decide_eq_true_eq, not_or, not_not] at hbyte
        simp [hbyte.2]
      · rw [hvalue, parseIsizeLine_eq]
        simpa [crlf] using hline

/-- An argument that was read is a part for the first decoder. -/
theorem readRespBulkArg_eq_some {arg rest : Bytes} (h : readRespBulkArg buffer = some (arg, rest)) :
    ∃ used, buffer = used ++ rest ∧ 1 * respMinFrameBytes ≤ used.length ∧
      Completes parseCommandPart used arg := by
  simp only [readRespBulkArg, bind_eq_bind, bind_eq_some_iff] at h
  obtain ⟨⟨len, consumed⟩, hheader, h⟩ := h
  obtain ⟨header, after, rfl, rfl, hlen, hline⟩ := readMarkedHeader_eq_some hheader
  have hdrop : (36 :: (header ++ after)).drop (1 + header.length) = after := by
    rw [Nat.add_comm, List.drop_succ_cons, List.drop_left]
  rw [hdrop] at h
  split_ifs at h with hshort hend
  cases h
  rw [not_not] at hend
  have hlength : (after.take len).length = len := List.length_take_of_le (by omega)
  have hsplit : after = after.take len ++ (crlf ++ after.drop (len + 2)) := by
    rw [← hend, ← List.drop_drop, List.take_append_drop, List.take_append_drop]
  have hpayload := completes_payload (after.take len) "blob string missing CRLF terminator"
  rw [hlength] at hpayload
  refine ⟨36 :: (header ++ (after.take len ++ crlf)), ?_, ?_, ?_⟩
  · nth_rewrite 1 [hsplit]
    simp
  · simp [respMinFrameBytes]
    omega
  · have hblob : Completes parseCommandBlob (header ++ (after.take len ++ crlf))
        (after.take len, header.length) := by
      refine hline.bind ?_
      dsimp only
      rw [if_neg (by omega), Int.toNat_natCast]
      exact hpayload.bindPure
    exact (completes_anyByte 36).bind (hblob.map Prod.fst)

theorem readRespBulkArgs_eq_some {count : ℕ} : ∀ {buffer args rest},
    readRespBulkArgs count buffer = some (args, rest) →
    ∃ used, buffer = used ++ rest ∧ count * 1 * respMinFrameBytes ≤ used.length ∧
      Completes (replicateM parseCommandPart count) used args := by
  induction count with
  | zero =>
    rintro buffer args rest ⟨⟩
    exact ⟨[], rfl, by simp, completes_pure []⟩
  | succ count ih =>
    intro buffer args rest h
    simp only [readRespBulkArgs, bind_eq_bind, bind_eq_some_iff] at h
    obtain ⟨⟨arg, after⟩, harg, ⟨args', rest'⟩, hargs, hdone⟩ := h
    cases hdone
    obtain ⟨used, rfl, hlen, hpart⟩ := readRespBulkArg_eq_some harg
    obtain ⟨used', rfl, hlen', hparts⟩ := ih hargs
    refine ⟨used ++ used', (List.append_assoc _ _ _).symm, ?_, hpart.bind hparts.bindPure⟩
    rw [List.length_append, Nat.succ_mul, Nat.add_mul]
    omega

theorem tryRespCommandParts_sound {command : Bytes} {args : List Bytes}
    (h : tryRespCommandParts buffer = some (consumed, command, args)) :
    decodeCommand buffer = .ok (some (command :: args, consumed)) := by
  simp only [tryRespCommandParts, bind_eq_bind, bind_eq_some_iff] at h
  obtain ⟨⟨argCount, headerLen⟩, hheader, h⟩ := h
  split_ifs at h with hcount
  simp only [Bool.or_eq_true, decide_eq_true_eq, not_or, not_lt] at hcount
  simp only [bind_eq_some_iff] at h
  obtain ⟨⟨command', after⟩, hcommand, ⟨args', rest⟩, hargs, hdone⟩ := h
  cases hdone
  obtain ⟨header, between, rfl, rfl, -, hline⟩ := readMarkedHeader_eq_some hheader
  have hdrop : (42 :: (header ++ between)).drop (1 + header.length) = between := by
    rw [Nat.add_comm, List.drop_succ_cons, List.drop_left]
  rw [hdrop] at hcommand
  -- the command is read like an argument, so that all parts are one sequence
  have hall : readRespBulkArgs argCount between = some (command' :: args', rest) := by
    obtain ⟨more, rfl⟩ := Nat.exists_eq_succ_of_ne_zero hcount.1
    rw [Nat.succ_sub_one] at hargs
    simp [readRespBulkArgs, hcommand, hargs]
  obtain ⟨used, rfl, hlen, hparts⟩ := readRespBulkArgs_eq_some hall
  have hframe : Completes parseCommandFrame (42 :: header ++ used) (command' :: args') := by
    have hcounted : Completes parseCommandHeader (42 :: header)
        ((argCount : ℤ), header.length) := by
      refine (completes_anyByte 42).bind fun after => ?_
      rw [if_neg (by simp), bind_of_complete (hline after)]
      exact congrFun (if_neg (by omega)) after
    refine hcounted.bind ?_
    dsimp only [validateContainerCount]
    rw [if_neg (by omega), if_neg (by rw [respMaxContainerItems]; omega), Int.toNat_natCast]
    exact hparts.need hlen
  have hresult := result_of_complete (hframe rest)
  rw [List.append_assoc, List.cons_append] at hresult
  exact hresult

/-- The parsers of commands agree. -/
theorem commandParsers_agree (buffer : Bytes) :
    decodeCommand buffer = (decodeCommandSpans buffer).map (Option.map fun found =>
      (found.1.map (spanBytes buffer), found.2)) ∧
    (∀ spans consumed, decodeCommandSpans buffer = .ok (some (spans, consumed)) →
      Ascending 0 spans consumed ∧ consumed ≤ buffer.length) ∧
    ∀ consumed command args, tryRespCommandParts buffer = some (consumed, command, args) →
      decodeCommand buffer = .ok (some (command :: args, consumed)) := by
  obtain ⟨hsame, hspans⟩ := decodeCommand_eq_spans buffer
  exact ⟨hsame, hspans, fun _ _ _ => tryRespCommandParts_sound⟩

/-- A command that the direct parser takes, with the next one behind it. -/
theorem commandParsers_agree_get :
    tryRespCommandParts (asciiText "*2\r\n$3\r\nGET\r\n$01\r\nk\r\n*1") =
        some (21, asciiText "GET", [asciiText "k"]) ∧
      decodeCommandSpans (asciiText "*2\r\n$3\r\nGET\r\n$01\r\nk\r\n*1") =
        .ok (some ([(8, 11), (18, 19)], 21)) ∧
      decodeCommand (asciiText "*2\r\n$3\r\nGET\r\n$01\r\nk\r\n*1") =
        .ok (some ([asciiText "GET", asciiText "k"], 21)) :=
  have hdirect : tryRespCommandParts (asciiText "*2\r\n$3\r\nGET\r\n$01\r\nk\r\n*1") =
      some (21, asciiText "GET", [asciiText "k"]) := by decide +kernel
  ⟨hdirect, by decide +kernel, (commandParsers_agree _).2.2 _ _ _ hdirect⟩

end RespCodec
end ShardKv
