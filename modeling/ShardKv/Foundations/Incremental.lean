import ShardKv.Foundations.Bytes

/-!
# Parsers that can ask for more

A parser looks at the bytes that have arrived so far. It completes with a value and
the bytes after it, refuses the input, or asks for more.

A parser is stable when more bytes never change its mind: a value stays the same
value and needed all of its bytes, and what was refused stays refused. Stability
composes, so that it holds for a whole grammar as soon as it holds for the parts.
-/
namespace ShardKv

open List

/-- What a parser says about the bytes so far. -/
inductive Parsed (α : Type) where
  | incomplete
  | error (message : String)
  | complete (value : α) (rest : Bytes)

def Incremental (α : Type) := Bytes → Parsed α

namespace Incremental

variable {α β : Type} {next : α → Incremental β}

instance : Monad Incremental where
  pure value := fun input => .complete value input
  bind parser next := fun input =>
    match parser input with
    | .incomplete => .incomplete
    | .error message => .error message
    | .complete value rest => next value rest

def fail (message : String) : Incremental α := fun _ => .error message

/-- A check of something that was parsed before. -/
def check : Except String α → Incremental α
  | .ok value => pure value
  | .error message => fail message

def anyByte : Incremental UInt8
  | [] => .incomplete
  | byte :: rest => .complete byte rest

def take (len : ℕ) : Incremental Bytes := fun input =>
  if input.length < len then .incomplete else .complete (input.take len) (input.drop len)

/-- Waits for a number of bytes before it looks at any. -/
def need (least : ℕ) (parser : Incremental α) : Incremental α := fun input =>
  if input.length < least then .incomplete else parser input

section Bind

variable {parser : Incremental α} {input rest : Bytes} {value : α}
  {result : β} {message : String}

theorem bind_of_complete (h : parser input = .complete value rest) :
    (parser >>= next) input = next value rest := by
  show (match parser input with | .incomplete => _ | .error m => _ | .complete v r => _) = _
  rw [h]

theorem bind_of_incomplete (h : parser input = .incomplete) :
    (parser >>= next) input = .incomplete := by
  show (match parser input with | .incomplete => _ | .error m => _ | .complete v r => _) = _
  rw [h]

theorem bind_of_error (h : parser input = .error message) :
    (parser >>= next) input = .error message := by
  show (match parser input with | .incomplete => _ | .error m => _ | .complete v r => _) = _
  rw [h]

theorem bind_eq_complete (h : (parser >>= next) input = .complete result rest) :
    ∃ value between, parser input = .complete value between ∧
      next value between = .complete result rest := by
  cases hfirst : parser input with
  | incomplete => rw [bind_of_incomplete hfirst] at h; cases h
  | error => rw [bind_of_error hfirst] at h; cases h
  | complete value between => exact ⟨value, between, rfl, (bind_of_complete hfirst).symm.trans h⟩

theorem bind_eq_error (h : (parser >>= next) input = .error message) :
    parser input = .error message ∨ ∃ value between, parser input = .complete value between ∧
      next value between = .error message := by
  cases hfirst : parser input with
  | incomplete => rw [bind_of_incomplete hfirst] at h; cases h
  | error =>
    rw [bind_of_error hfirst] at h
    cases h
    exact .inl rfl
  | complete value between =>
    exact .inr ⟨value, between, rfl, (bind_of_complete hfirst).symm.trans h⟩

end Bind

structure Stable (parser : Incremental α) : Prop where
  complete : ∀ {input value rest}, parser input = .complete value rest →
    ∃ used, input = used ++ rest ∧ (∀ more, parser (used ++ more) = .complete value more) ∧
      ∀ n < used.length, parser (used.take n) = .incomplete
  error : ∀ {input message}, parser input = .error message →
    ∀ more, ∃ message, parser (input ++ more) = .error message

/-- Whatever is parsed takes at least so many bytes. -/
def AtLeast (least : ℕ) (parser : Incremental α) : Prop :=
  ∀ input value rest, parser input = .complete value rest → least + rest.length ≤ input.length

theorem stable_pure (value : α) : Stable (pure value) where
  complete h := by
    cases h
    exact ⟨[], rfl, fun _ => rfl, fun n hn => absurd hn (Nat.not_lt_zero n)⟩
  error h := nomatch h

theorem stable_fail (message : String) : Stable (fail message : Incremental α) where
  complete h := nomatch h
  error _ _ := ⟨message, rfl⟩

theorem stable_check (result : Except String α) : Stable (check result) := by
  cases result with
  | ok value => exact stable_pure value
  | error message => exact stable_fail message

theorem stable_ite {c : Prop} [Decidable c] {first second : Incremental α} (hfirst : Stable first)
    (hsecond : Stable second) : Stable (if c then first else second) := by
  split_ifs
  · exact hfirst
  · exact hsecond

theorem stable_anyByte : Stable anyByte where
  complete {input value rest} h := by
    cases input with
    | nil => cases h
    | cons =>
      cases h
      refine ⟨[value], rfl, fun _ => rfl, fun n hn => ?_⟩
      rw [Nat.lt_one_iff.mp hn]
      rfl
  error {input message} h := by cases input <;> cases h

theorem stable_take (len : ℕ) : Stable (take len) where
  complete {input value rest} h := by
    rw [take] at h
    split_ifs at h
    cases h
    have hlen : (input.take len).length = len := by
      rw [length_take]
      omega
    refine ⟨input.take len, (take_append_drop len input).symm, fun more => ?_, fun n hn => ?_⟩
    · rw [take, if_neg (by simp [hlen]), take_left' hlen, drop_left' hlen]
    · rw [take, if_pos (by rw [length_take, length_take]; omega)]
  error {input message} h := by
    rw [take] at h
    split_ifs at h

section

variable {parser : Incremental α}

theorem Stable.bind (hfirst : Stable parser)
    (hsecond : ∀ value, Stable (next value)) : Stable (parser >>= next) where
  complete {input result rest} h := by
    obtain ⟨value, between, hvalue, hnext⟩ := bind_eq_complete h
    obtain ⟨first, rfl, hmore, hpart⟩ := hfirst.complete hvalue
    obtain ⟨second, rfl, hmore', hpart'⟩ := (hsecond value).complete hnext
    refine ⟨first ++ second, (append_assoc ..).symm, fun more => ?_, fun n hn => ?_⟩
    · rw [append_assoc, bind_of_complete (hmore _), hmore']
    · -- A part of both ends inside the first, or inside the second.
      rcases Nat.lt_or_ge n first.length with hinside | hbeyond
      · rw [take_append_of_le_length (Nat.le_of_lt hinside)]
        exact bind_of_incomplete (hpart n hinside)
      · rw [take_append, take_of_length_le hbeyond, bind_of_complete (hmore _)]
        rw [length_append] at hn
        exact hpart' _ (by omega)
  error {input message} h more := by
    rcases bind_eq_error h with h | ⟨value, between, hvalue, hnext⟩
    · obtain ⟨message, hmessage⟩ := hfirst.error h more
      exact ⟨message, bind_of_error hmessage⟩
    · obtain ⟨used, rfl, hmore, -⟩ := hfirst.complete hvalue
      obtain ⟨message, hmessage⟩ := (hsecond value).error hnext more
      refine ⟨message, ?_⟩
      rw [append_assoc, bind_of_complete (hmore _), hmessage]

theorem Stable.map (h : Stable parser) (f : α → β) : Stable (f <$> parser) :=
  h.bind fun value => stable_pure (f value)

/-- Waiting for bytes that will be used anyway changes nothing but the moment. -/
theorem Stable.need {least : ℕ} (h : Stable parser)
    (hleast : AtLeast least parser) : Stable (need least parser) where
  complete {input value rest} hparsed := by
    rw [Incremental.need] at hparsed
    split_ifs at hparsed
    obtain ⟨used, rfl, hmore, hpart⟩ := h.complete hparsed
    have hlen := hleast _ _ _ (hmore [])
    refine ⟨used, rfl, fun more => ?_, fun n hn => ?_⟩
    · rw [Incremental.need, if_neg (by simp at hlen ⊢; omega), hmore]
    · rw [Incremental.need]
      split_ifs
      · rfl
      · exact hpart n hn
  error {input message} hparsed more := by
    rw [Incremental.need] at hparsed
    split_ifs at hparsed
    obtain ⟨message, hmessage⟩ := h.error hparsed more
    refine ⟨message, ?_⟩
    rw [Incremental.need, if_neg (by simp; omega), hmessage]

theorem stable_replicate (h : Stable parser) (count : ℕ) : Stable (replicateM parser count) := by
  induction count with
  | zero => exact stable_pure []
  | succ count ih => exact h.bind fun value => ih.bind fun values => stable_pure _

theorem atLeast_zero (h : Stable parser) : AtLeast 0 parser := by
  intro input value rest hparsed
  obtain ⟨used, rfl, -⟩ := h.complete hparsed
  simp

theorem AtLeast.bind {first second : ℕ} (hfirst : AtLeast first parser)
    (hsecond : ∀ value, AtLeast second (next value)) :
    AtLeast (first + second) (parser >>= next) := by
  intro input result rest h
  obtain ⟨value, between, hvalue, hnext⟩ := bind_eq_complete h
  have hused := hfirst _ _ _ hvalue
  have hused' := hsecond value _ _ _ hnext
  omega

theorem AtLeast.mono {least fewer : ℕ} (h : AtLeast least parser)
    (hle : fewer ≤ least) : AtLeast fewer parser := by
  intro input value rest hparsed
  have := h _ _ _ hparsed
  omega

/-- A stable parser that takes at least so many bytes. -/
structure Lasting (least : ℕ) (parser : Incremental α) : Prop extends Stable parser where
  atLeast : AtLeast least parser

namespace Lasting

variable {least : ℕ} (h : Lasting least parser)
include h

theorem bind (hnext : ∀ value, Stable (next value)) : Lasting least (parser >>= next) :=
  ⟨h.toStable.bind hnext, h.atLeast.bind fun value => atLeast_zero (hnext value)⟩

theorem append {second : ℕ} (hnext : ∀ value, Lasting second (next value)) :
    Lasting (least + second) (parser >>= next) :=
  ⟨h.toStable.bind fun value => (hnext value).toStable,
    h.atLeast.bind fun value => (hnext value).atLeast⟩

theorem map (f : α → β) : Lasting least (f <$> parser) := h.bind fun value => stable_pure (f value)

theorem mono {fewer : ℕ} (hle : fewer ≤ least) : Lasting fewer parser :=
  ⟨h.toStable, h.atLeast.mono hle⟩

end Lasting
end

theorem atLeast_anyByte : AtLeast 1 anyByte := by
  intro input value rest h
  cases input with
  | nil => cases h
  | cons =>
    cases h
    simp only [length_cons]
    omega

theorem atLeast_take (len : ℕ) : AtLeast len (take len) := by
  intro input value rest h
  rw [take] at h
  split_ifs at h
  cases h
  rw [length_drop]
  omega

theorem atLeast_fail (least : ℕ) (message : String) :
    AtLeast least (fail message : Incremental α) := by
  intro input value rest h
  cases h

theorem atLeast_replicate {parser : Incremental α} {least : ℕ} (h : AtLeast least parser)
    (count : ℕ) : AtLeast (count * least) (replicateM parser count) := by
  induction count with
  | zero =>
    rw [zero_mul]
    exact atLeast_zero (stable_pure [])
  | succ count ih =>
    have hitems := h.bind fun value => ih.bind fun values =>
      atLeast_zero (stable_pure (value :: values))
    exact hitems.mono (by rw [Nat.succ_mul]; omega)

/-- In front of anything, `bytes` is parsed as `value`. -/
def Completes (parser : Incremental α) (bytes : Bytes) (value : α) : Prop :=
  ∀ rest, parser (bytes ++ rest) = .complete value rest

/-- In front of anything, `bytes` is refused. -/
def Fails (parser : Incremental α) (bytes : Bytes) : Prop :=
  ∀ rest, ∃ message, parser (bytes ++ rest) = .error message

section Encodings

variable {parser : Incremental α} {first second : Bytes} {value : α}
  {result : β} {least : ℕ}

theorem completes_pure (value : α) : Completes (pure value) [] value := fun _ => rfl

theorem Completes.bind (hfirst : Completes parser first value)
    (hsecond : Completes (next value) second result) :
    Completes (parser >>= next) (first ++ second) result := by
  intro rest
  rw [append_assoc, bind_of_complete (hfirst _), hsecond]

theorem Completes.bindPure {f : α → β} (h : Completes parser first value) :
    Completes (parser >>= fun parsed => pure (f parsed)) first (f value) := by
  intro rest
  rw [bind_of_complete (h rest)]
  rfl

theorem Completes.map (h : Completes parser first value) (f : α → β) :
    Completes (f <$> parser) first (f value) :=
  h.bindPure

theorem Completes.bind_fails (hfirst : Completes parser first value)
    (hsecond : Fails (next value) second) : Fails (parser >>= next) (first ++ second) := by
  intro rest
  obtain ⟨message, hmessage⟩ := hsecond rest
  exact ⟨message, by rw [append_assoc, bind_of_complete (hfirst _), hmessage]⟩

theorem Fails.bind (hfirst : Fails parser first) (second : Bytes) :
    Fails (parser >>= next) (first ++ second) := by
  intro rest
  obtain ⟨message, hmessage⟩ := hfirst (second ++ rest)
  exact ⟨message, by rw [append_assoc, bind_of_error hmessage]⟩

theorem Fails.bindAny (h : Fails parser first) : Fails (parser >>= next) first := by
  intro rest
  obtain ⟨message, hmessage⟩ := h rest
  exact ⟨message, bind_of_error hmessage⟩

theorem Completes.need (h : Completes parser first value) (hleast : least ≤ first.length) :
    Completes (need least parser) first value := by
  intro rest
  rw [Incremental.need, if_neg (by simp; omega), h]

theorem Fails.need (h : Fails parser first) (hleast : least ≤ first.length) :
    Fails (need least parser) first := by
  intro rest
  obtain ⟨message, hmessage⟩ := h rest
  exact ⟨message, by rw [Incremental.need, if_neg (by simp; omega), hmessage]⟩

theorem completes_take (bytes : Bytes) : Completes (take bytes.length) bytes bytes := by
  intro rest
  rw [take, if_neg (by simp), take_left, drop_left]

variable {f : α → Except String β}

/-- A check of what was parsed uses no input. -/
theorem Completes.bindCheck (h : Completes parser first value)
    (hok : f value = .ok result) :
    Completes (parser >>= fun parsed => check (f parsed)) first result := by
  intro rest
  rw [bind_of_complete (h rest), hok]
  rfl

theorem Completes.bindCheck_fails {message : String}
    (h : Completes parser first value) (herror : f value = .error message) :
    Fails (parser >>= fun parsed => check (f parsed)) first := by
  intro rest
  refine ⟨message, ?_⟩
  rw [bind_of_complete (h rest), herror]
  rfl

/-- In front of anything, `bytes` is parsed as `value` under the condition, and refused without
it. -/
structure Settles (condition : Prop) (parser : Incremental α) (bytes : Bytes) (value : α) :
    Prop where
  completes : condition → Completes parser bytes value
  fails : ¬condition → Fails parser bytes

variable {condition condition' : Prop}

theorem Completes.settles (h : Completes parser first value) : Settles True parser first value where
  completes _ := h
  fails hnot := absurd trivial hnot

theorem Settles.congr (h : Settles condition parser first value)
    (hiff : condition' ↔ condition) : Settles condition' parser first value where
  completes hcondition := h.completes (hiff.mp hcondition)
  fails hnot := h.fails (mt hiff.mpr hnot)

theorem Settles.bind (hfirst : Settles condition parser first value)
    (hsecond : Settles condition' (next value) second result) :
    Settles (condition ∧ condition') (parser >>= next) (first ++ second) result where
  completes hboth := (hfirst.completes hboth.1).bind (hsecond.completes hboth.2)
  fails hnot := by
    by_cases hcondition : condition
    · exact (hfirst.completes hcondition).bind_fails (hsecond.fails fun h => hnot ⟨hcondition, h⟩)
    · exact (hfirst.fails hcondition).bind second

theorem Completes.bindSettles (hfirst : Completes parser first value)
    (hsecond : Settles condition (next value) second result) :
    Settles condition (parser >>= next) (first ++ second) result :=
  (hfirst.settles.bind hsecond).congr (true_and condition).symm.to_iff

section

variable (h : Settles condition parser first value)
include h

theorem Settles.bindPure {f : α → β} :
    Settles condition (parser >>= fun parsed => pure (f parsed)) first (f value) where
  completes hcondition := (h.completes hcondition).bindPure
  fails hnot := (h.fails hnot).bindAny

theorem Settles.map (f : α → β) : Settles condition (f <$> parser) first (f value) :=
  h.bindPure

theorem Settles.need (hleast : least ≤ first.length) :
    Settles condition (need least parser) first value where
  completes hcondition := (h.completes hcondition).need hleast
  fails hnot := (h.fails hnot).need hleast

end

/-- A list is parsed if all its items are, and refused at the first that is not. -/
theorem settles_replicate {encode : α → Bytes} {condition : α → Prop} {values : List α}
    (h : ∀ value ∈ values, Settles (condition value) parser (encode value) value) :
    Settles (∀ value ∈ values, condition value) (replicateM parser values.length)
      (values.flatMap encode) values := by
  induction values with
  | nil => exact (completes_pure []).settles.congr (by simp)
  | cons value values ih =>
    have htail := ih fun value hvalue => h value (mem_cons_of_mem _ hvalue)
    exact ((h value mem_cons_self).bind htail.bindPure).congr forall_mem_cons

end Encodings
end Incremental
end ShardKv
