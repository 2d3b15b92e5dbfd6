import ShardKv.Protocol.Resp

/-!
# Decoding RESP as it arrives

All three decoders are stable: what they decoded stays decoded, what they refused
stays refused, and they ask for more in every part of what they decode. Two places
need an argument. The number parser has a short cut that is no different from the long
way, and the decoder of an aggregate waits for as many bytes as its items must have,
which is sound because no frame is shorter than that.
-/
namespace ShardKv.RespCodec

open List
open Incremental
variable {digits : Bytes} {text : Bytes}

/-- A line end that was found is the first, in whatever follows it, and it is missing from every
part of the line. -/
theorem findCrlf_eq_some {input : Bytes} {stop : ℕ} (h : findCrlf input = some stop) :
    ∃ before after, input = before ++ (crlf ++ after) ∧ before.length = stop ∧
      (∀ more, findCrlf (before ++ (crlf ++ more)) = some stop) ∧
      ∀ n < stop + 2, findCrlf ((before ++ crlf).take n) = none := by
  induction input generalizing stop with
  | nil => cases h
  | cons byte rest ih =>
    rw [findCrlf] at h
    split_ifs at h with hend
    · obtain ⟨rfl, hhead⟩ := hend
      cases rest with
      | nil => cases hhead
      | cons second after =>
        cases hhead
        cases h
        refine ⟨[], after, rfl, rfl, fun more => rfl, fun n hn => ?_⟩
        match n, hn with
        | 0, _ => rfl
        | 1, _ => rfl
    · obtain ⟨stop, hstop, rfl⟩ := Option.map_eq_some_iff.mp h
      obtain ⟨before, after, rfl, rfl, hmore, hpart⟩ := ih hstop
      -- What follows the first byte starts alike, however the line goes on.
      have hhead : ∀ more, (before ++ (crlf ++ more)).head? = (before ++ (crlf ++ after)).head? := by
        intro more
        cases before <;> rfl
      refine ⟨byte :: before, after, rfl, rfl, fun more => ?_, fun n hn => ?_⟩
      · rw [cons_append, findCrlf, hhead, if_neg hend, hmore]
        rfl
      · cases n with
        | zero => rfl
        | succ n =>
          rw [cons_append, take_succ_cons, findCrlf, hpart n (by omega)]
          split_ifs with hend'
          · cases n with
            | zero => cases hend'.2
            | succ n =>
              have hfirst : ((before ++ crlf).take (n + 1)).head? =
                  (before ++ (crlf ++ after)).head? := by cases before <;> rfl
              exact absurd (hfirst ▸ hend') hend
          · rfl

theorem stable_line : Stable line where
  complete {input value rest} h := by
    rw [line] at h
    split at h
    · cases h
    · next stop hstop =>
      cases h
      obtain ⟨before, after, rfl, rfl, hmore, hpart⟩ := findCrlf_eq_some hstop
      have hdrop : ∀ more, (before ++ (crlf ++ more)).drop (before.length + 2) = more := by
        intro more
        rw [← append_assoc]
        exact drop_left' (by simp [crlf])
      refine ⟨before ++ crlf, ?_, fun more => ?_, fun n hn => ?_⟩
      · rw [hdrop, append_assoc]
      · rw [line, append_assoc, hmore]
        simp only [take_left, hdrop]
      · rw [line, hpart n (by simpa [crlf] using hn)]
  error {input message} h := by
    rw [line] at h
    split at h <;> cases h

/-- The value of digits that follow a value. -/
def digitsValue (value : ℕ) (digits : Bytes) : ℕ :=
  digits.foldl (fun value byte => value * 10 + (byte.toNat - 48)) value

theorem le_digitsValue (digits : Bytes) (value : ℕ) : value ≤ digitsValue value digits := by
  induction digits generalizing value with
  | nil => exact le_rfl
  | cons byte digits ih =>
    have := ih (value * 10 + (byte.toNat - 48))
    rw [digitsValue, foldl_cons]
    exact le_trans (by omega) this

/-- Digits are read as their value, as long as it fits a word. -/
theorem parseDigits_eq (h : ∀ byte ∈ digits, isDigit byte = true) (value : ℕ)
    (hvalue : value ≤ maxInt64) :
    parseDigits value digits = if digitsValue value digits ≤ maxInt64
      then .ok (digitsValue value digits) else .error "RESP integer overflow" := by
  induction digits generalizing value with
  | nil => rw [parseDigits, digitsValue, foldl_nil, if_pos hvalue]
  | cons byte digits ih =>
    have hbyte := h byte mem_cons_self
    have hstep : digitsValue value (byte :: digits) =
        digitsValue (value * 10 + (byte.toNat - 48)) digits := rfl
    have hle := le_digitsValue digits (value * 10 + (byte.toNat - 48))
    rw [parseDigits, hbyte, hstep, if_neg (by simp)]
    split_ifs with hover hfits hfits
    · exact absurd (hle.trans hfits) (by omega)
    · rfl
    · rw [ih (fun byte hbyte => h byte (mem_cons_of_mem _ hbyte)) _ (by omega), if_pos hfits]
    · rw [ih (fun byte hbyte => h byte (mem_cons_of_mem _ hbyte)) _ (by omega), if_neg hfits]

theorem findCrlf_of_not_mem (h : 13 ∉ text) (rest : Bytes) :
    findCrlf (text ++ (crlf ++ rest)) = some text.length := by
  induction text with
  | nil => rfl
  | cons byte text ih =>
    rw [mem_cons, not_or] at h
    rw [cons_append, findCrlf, if_neg fun hend => h.1 hend.1.symm, ih h.2]
    rfl

theorem completes_line (h : 13 ∉ text) : Completes line (text ++ crlf) text := by
  intro rest
  have hdrop : (text ++ (crlf ++ rest)).drop (text.length + 2) = rest := by
    rw [← append_assoc]
    exact drop_left' (by simp [crlf])
  rw [line, append_assoc, findCrlf_of_not_mem h]
  simp only [take_left, hdrop]

theorem isDigit_iff {byte : UInt8} : isDigit byte = true ↔ 48 ≤ byte.toNat ∧ byte.toNat ≤ 57 := by
  rw [isDigit, Bool.and_eq_true, decide_eq_true_eq, decide_eq_true_eq, UInt8.le_iff_toNat_le,
    UInt8.le_iff_toNat_le]
  rfl

theorem splitSign_of_isDigit {byte : UInt8} (h : isDigit byte = true) (rest : Bytes) :
    splitSign (byte :: rest) = (false, byte :: rest) := by
  have hrange := isDigit_iff.mp h
  rw [splitSign]
  · rintro rest ⟨⟩
    exact absurd hrange (by decide)
  · rintro rest ⟨⟩
    exact absurd hrange (by decide)

theorem parseAsciiInt_digits (hne : digits ≠ []) (h : ∀ byte ∈ digits, isDigit byte = true) :
    parseAsciiInt digits = (if digitsValue 0 digits ≤ maxInt64
      then .ok (digitsValue 0 digits : ℤ) else .error "RESP integer overflow") := by
  cases digits with
  | nil => exact absurd rfl hne
  | cons byte digits =>
    have hsign := splitSign_of_isDigit (h byte mem_cons_self) digits
    simp only [parseAsciiInt, hsign, if_neg hne]
    rw [parseDigits_eq h 0 (Nat.zero_le _)]
    by_cases hfits : digitsValue 0 (byte :: digits) ≤ maxInt64
    · simp only [if_pos hfits, Bool.false_eq_true, if_false]
    · simp only [if_neg hfits]

theorem cr_not_mem_digits (h : ∀ byte ∈ digits, isDigit byte = true) : 13 ∉ digits := fun hmem =>
    absurd (h 13 hmem) (by decide)

theorem completes_parseIntLine {value : ℤ} (hline : 13 ∉ text)
    (hvalue : parseAsciiInt text = .ok value) :
    Completes parseIntLine (text ++ crlf) (value, text.length + 2) := by
  intro rest
  rw [parseIntLine, bind_of_complete (completes_line hline rest), hvalue]
  rfl

theorem digitsValue_lt (h : ∀ byte ∈ digits, isDigit byte = true) (value : ℕ) :
    digitsValue value digits < (value + 1) * 10 ^ digits.length := by
  induction digits generalizing value with
  | nil =>
    rw [digitsValue, foldl_nil, length_nil, pow_zero, mul_one]
    exact Nat.lt_succ_self value
  | cons byte digits ih =>
    have hbyte := isDigit_iff.mp (h byte mem_cons_self)
    have htail := ih (fun byte hbyte => h byte (mem_cons_of_mem _ hbyte))
      (value * 10 + (byte.toNat - 48))
    have hstep : (value * 10 + (byte.toNat - 48) + 1) * 10 ^ digits.length ≤
        (value + 1) * 10 * 10 ^ digits.length := Nat.mul_le_mul_right _ (by omega)
    rw [digitsValue, foldl_cons, length_cons, pow_succ', ← mul_assoc]
    exact lt_of_lt_of_le htail hstep

theorem completes_digits (hne : digits ≠ []) (hlen : digits.length ≤ 9)
    (h : ∀ byte ∈ digits, isDigit byte = true) :
    Completes parseIntLine (digits ++ crlf) ((digitsValue 0 digits : ℤ), digits.length + 2) := by
  have hfits : digitsValue 0 digits ≤ maxInt64 := by
    have hpow : 10 ^ digits.length ≤ 10 ^ 9 := Nat.pow_le_pow_right (by decide) hlen
    have hlt := digitsValue_lt h 0
    rw [maxInt64]
    omega
  have hvalue := parseAsciiInt_digits hne h
  rw [if_pos hfits] at hvalue
  exact completes_parseIntLine (cr_not_mem_digits h) hvalue

theorem tryParseShortUint_eq_some {rounds value consumed value' consumed' : ℕ} {input : Bytes}
    (h : tryParseShortUint value consumed rounds input = some (value', consumed')) :
    ∃ digits rest, input = digits ++ (crlf ++ rest) ∧ digits ≠ [] ∧ digits.length ≤ rounds ∧
      (∀ byte ∈ digits, isDigit byte = true) ∧ value' = digitsValue value digits ∧
      consumed' = consumed + digits.length + 2 := by
  induction rounds generalizing value consumed input with
  | zero => cases h
  | succ rounds ih =>
    match input, h with
    | byte :: cr :: lf :: rest, h =>
      rw [tryParseShortUint] at h
      split_ifs at h with hbyte hend
      · obtain ⟨rfl, rfl⟩ := hend
        cases h
        exact ⟨[byte], rest, rfl, by simp, by simp, by simpa using hbyte, rfl, rfl⟩
      · obtain ⟨digits, after, hinput, hne, hlen, hdigits, rfl, rfl⟩ := ih h
        refine ⟨byte :: digits, after, by rw [hinput]; rfl, by simp, by simpa using hlen, ?_, rfl,
          by simp only [length_cons]; omega⟩
        rw [forall_mem_cons]
        exact ⟨by simpa using hbyte, hdigits⟩

/-- The short cut is no different from the long way. -/
theorem parseIsizeLine_eq : parseIsizeLine = parseIntLine := by
  funext input
  rw [parseIsizeLine]
  split
  · next value consumed hshort =>
    obtain ⟨digits, rest, rfl, hne, hlen, hdigits, rfl, rfl⟩ := tryParseShortUint_eq_some hshort
    have hdrop : (digits ++ crlf ++ rest).drop (digits.length + 2) = rest :=
      drop_left' (by simp [crlf])
    rw [zero_add, ← append_assoc, completes_digits hne (by omega) hdigits, hdrop]
  · rfl

theorem atLeast_line : AtLeast 2 line := by
  intro input value rest h
  rw [line] at h
  split at h
  · cases h
  · next stop hstop =>
    cases h
    obtain ⟨before, after, rfl, rfl, -⟩ := findCrlf_eq_some hstop
    simp only [length_append, length_drop, crlf, length_cons, length_nil]
    omega

theorem lasting_line : Lasting 2 line := ⟨stable_line, atLeast_line⟩

theorem lasting_parseLine : Lasting 2 parseLine := lasting_line.bind fun _ => stable_check _

theorem lasting_parseIntLine : Lasting 2 parseIntLine :=
  lasting_line.bind fun _ => (stable_check _).bind fun _ => stable_pure _

theorem lasting_parseIsizeLine : Lasting 2 parseIsizeLine :=
  parseIsizeLine_eq ▸ lasting_parseIntLine

theorem stable_payload (length : ℕ) (missing : String) : Stable (payload length missing) :=
  (stable_take _).bind fun _ => stable_check _

/-- Items of at least three bytes for each of their frames make the wait for them harmless. -/
theorem stable_validateContainerCount {α : Type} {items : ℕ → Incremental α} (count : ℤ)
    (framesPerItem : ℕ) (label : String) (hitems : ∀ count, Stable (items count))
    (hleast : ∀ count, AtLeast (count * framesPerItem * respMinFrameBytes) (items count)) :
    Stable (validateContainerCount count framesPerItem label items) :=
  stable_ite (stable_fail _) (stable_ite (stable_fail _) ((hitems _).need (hleast _)))

section

variable {α : Type} {item : Incremental α} {framesPerItem : ℕ}
  (hitem : Lasting (framesPerItem * respMinFrameBytes) item)
include hitem

theorem stable_countedItems (count : ℤ) (label : String) :
    Stable (validateContainerCount count framesPerItem label (replicateM item)) :=
  stable_validateContainerCount count framesPerItem label (stable_replicate hitem.toStable)
    fun count => by
      rw [mul_assoc]
      exact atLeast_replicate hitem.atLeast count

theorem lasting_parseContainer {label : String} {negative : Incremental Frame}
    {make : List α → Frame} (hnegative : Stable negative) :
    Lasting 2 (parseContainer framesPerItem label item negative make) :=
  lasting_parseIsizeLine.bind fun _ =>
    stable_ite hnegative ((stable_countedItems hitem _ label).map make)

end

section Children

variable {child : Incremental Frame} (hchild : Lasting respMinFrameBytes child)

include hchild

theorem lasting_parsePair : Lasting (2 * respMinFrameBytes) (parsePair child) :=
  (hchild.append fun _ => hchild.bind fun _ => stable_pure _).mono (by decide)

/-- Every kind of frame has a line end, or at least two bytes, after its marker. -/
theorem lasting_parseMarked (marker : UInt8) : Lasting 2 (parseMarked child marker) := by
  have hone : Lasting (1 * respMinFrameBytes) child := by rwa [one_mul]
  have hpair := lasting_parsePair hchild
  rw [parseMarked]
  split
  · exact lasting_parseLine.map _
  · exact lasting_parseLine.map _
  · exact lasting_parseIsizeLine.bind fun _ => stable_ite (stable_fail _)
      ((stable_payload _ _).bind fun _ => (stable_check _).map _)
  · exact lasting_parseIntLine.bind fun _ => stable_pure _
  · exact lasting_parseIsizeLine.bind fun _ =>
      stable_ite (stable_pure _) ((stable_payload _ _).map _)
  · exact lasting_parseContainer hone (stable_pure _)
  · exact lasting_parseContainer hpair (stable_fail _)
  · exact lasting_parseContainer hone (stable_fail _)
  · exact lasting_parseContainer hone (stable_fail _)
  · exact Lasting.bind ⟨stable_take _, atLeast_take 2⟩ fun _ => stable_check _
  · exact (Lasting.bind ⟨stable_take _, atLeast_take 3⟩ fun _ => stable_check _).mono (by decide)
  · exact lasting_parseLine.bind fun _ => stable_check _
  · exact lasting_parseLine.bind fun _ => stable_check _
  · exact lasting_parseIsizeLine.bind fun _ => stable_ite (stable_fail _)
      ((stable_payload _ _).bind fun _ => stable_check _)
  · exact lasting_parseIsizeLine.bind fun _ => stable_ite (stable_fail _)
      ((stable_countedItems hpair _ _).bind fun _ => hchild.toStable.bind fun _ => stable_pure _)
  · exact ⟨stable_fail _, atLeast_fail _ _⟩

end Children

/-- What follows a marker takes two bytes or more. -/
theorem lasting_marked {α : Type} {next : UInt8 → Incremental α}
    (h : ∀ marker, Lasting 2 (next marker)) : Lasting respMinFrameBytes (anyByte >>= next) :=
  Lasting.append ⟨stable_anyByte, atLeast_anyByte⟩ h

/-- Frames of any depth. The children of an aggregate are the frames of one level less, and their
least length is what makes the aggregate stable. -/
theorem lasting_parseFrame (levels : ℕ) : Lasting respMinFrameBytes (parseFrame levels) := by
  induction levels with
  | zero => exact lasting_marked fun _ => ⟨stable_fail _, atLeast_fail _ _⟩
  | succ levels ih => exact lasting_marked (lasting_parseMarked ih)

theorem stable_parseCommandHeader : Stable parseCommandHeader :=
  stable_anyByte.bind fun _ => stable_ite (stable_fail _)
    (lasting_parseIsizeLine.toStable.bind fun _ => stable_ite (stable_fail _) (stable_pure _))

theorem lasting_parseCommandBlob : Lasting 2 parseCommandBlob :=
  lasting_parseIsizeLine.bind fun _ => stable_ite (stable_fail _)
    ((stable_payload _ _).bind fun _ => stable_pure _)

/-- A part of a command is a blob or a line. -/
theorem lasting_parseCommandPart : Lasting (1 * respMinFrameBytes) parseCommandPart := by
  rw [one_mul]
  refine lasting_marked fun marker => ?_
  split
  · exact lasting_parseCommandBlob.map _
  · exact lasting_line
  · exact lasting_line
  · exact ⟨stable_fail _, atLeast_fail _ _⟩

theorem lasting_parseCommandPartSpan (offset : ℕ) :
    Lasting respMinFrameBytes (parseCommandPartSpan offset) := by
  refine lasting_marked fun marker => ?_
  split
  · exact lasting_parseCommandBlob.bind fun _ => stable_pure _
  · exact lasting_line.bind fun _ => stable_pure _
  · exact lasting_line.bind fun _ => stable_pure _
  · exact ⟨stable_fail _, atLeast_fail _ _⟩

theorem lasting_parseCommandSpans (cursor count : ℕ) :
    Lasting (count * 1 * respMinFrameBytes) (parseCommandSpans cursor count) := by
  induction count generalizing cursor with
  | zero => exact ⟨stable_pure [], (atLeast_zero (stable_pure [])).mono (by simp)⟩
  | succ count ih =>
    have hspans := (lasting_parseCommandPartSpan cursor).append fun parsed =>
      (ih (cursor + parsed.2)).bind fun spans => stable_pure (parsed.1 :: spans)
    exact hspans.mono (by rw [respMinFrameBytes]; omega)

theorem stable_parseCommandFrame : Stable parseCommandFrame :=
  stable_parseCommandHeader.bind fun _ => stable_countedItems lasting_parseCommandPart _ _

theorem stable_parseCommandSpanFrame : Stable parseCommandSpanFrame :=
  stable_parseCommandHeader.bind fun _ =>
    stable_validateContainerCount _ _ _ (fun _ => (lasting_parseCommandSpans _ _).toStable)
      fun _ => (lasting_parseCommandSpans _ _).atLeast

/-- A decoder whose answers about a buffer hold for every buffer that continues it, and who asks
for more as long as a value is cut. -/
structure PrefixStable {α : Type} (decoder : Bytes → Except String (Option (α × ℕ))) : Prop where
  consumed_le : ∀ buffer value consumed, decoder buffer = .ok (some (value, consumed)) →
    consumed ≤ buffer.length
  extend : ∀ buffer value consumed more, decoder buffer = .ok (some (value, consumed)) →
    decoder (buffer ++ more) = .ok (some (value, consumed))
  cut : ∀ buffer value consumed n, decoder buffer = .ok (some (value, consumed)) → n < consumed →
    decoder (buffer.take n) = .ok none
  refused : ∀ buffer message more, decoder buffer = .error message →
    ∃ message, decoder (buffer ++ more) = .error message

section

variable {α : Type} {parser : Incremental α}

theorem result_eq_some {buffer : Bytes} {value : α}
    {consumed : ℕ} (h : result parser buffer = .ok (some (value, consumed))) :
    ∃ rest, parser buffer = .complete value rest ∧ consumed = buffer.length - rest.length := by
  rw [result] at h
  split at h
  · cases h
  · cases h
  · next parsed rest hparsed =>
    cases h
    exact ⟨rest, hparsed, rfl⟩

theorem result_of_complete {buffer rest : Bytes} {value : α}
    (h : parser buffer = .complete value rest) :
    result parser buffer = .ok (some (value, buffer.length - rest.length)) := by
  rw [result, h]

theorem prefixStable_result (h : Stable parser) : PrefixStable (result parser) where
  consumed_le buffer value consumed hparsed := by
    obtain ⟨rest, -, rfl⟩ := result_eq_some hparsed
    exact Nat.sub_le _ _
  extend buffer value consumed more hparsed := by
    obtain ⟨rest, hrest, rfl⟩ := result_eq_some hparsed
    obtain ⟨used, rfl, hmore, -⟩ := h.complete hrest
    rw [append_assoc, result_of_complete (hmore _)]
    simp only [length_append, Nat.add_sub_cancel]
  cut buffer value consumed n hparsed hn := by
    obtain ⟨rest, hrest, rfl⟩ := result_eq_some hparsed
    obtain ⟨used, rfl, -, hpart⟩ := h.complete hrest
    rw [length_append, Nat.add_sub_cancel] at hn
    rw [take_append_of_le_length (Nat.le_of_lt hn), result, hpart n hn]
  refused buffer message more hparsed := by
    rw [result] at hparsed
    split at hparsed
    · cases hparsed
    · next refusal hrefused =>
      obtain ⟨message, hmessage⟩ := h.error hrefused more
      exact ⟨message, by rw [result, hmessage]⟩
    · cases hparsed

end

/-- All three decoders are stable on what has arrived so far. -/
theorem decoders_prefixStable :
    PrefixStable decode ∧ PrefixStable decodeCommand ∧ PrefixStable decodeCommandSpans :=
  ⟨prefixStable_result (lasting_parseFrame _).toStable, prefixStable_result stable_parseCommandFrame,
    prefixStable_result stable_parseCommandSpanFrame⟩

end ShardKv.RespCodec
