import ShardKv.Foundations.Bytes

/-!
# Readers of byte strings

A reader takes some bytes from the front of its input and returns a value, or fails
with a message. Two facts about readers compose along `>>=`: which bytes a reader
takes for which value, with anything after them (`Reads`), and that the byte
strings in its result are pieces of what it took (`Within`).
-/
namespace ShardKv

open List

abbrev ByteReader := StateT Bytes (Except String)

namespace ByteReader

variable {α β : Type} {reader : ByteReader α} {next : α → ByteReader β} {value : α} {bytes : Bytes}

/-- In front of anything, `bytes` is read as `value` and used up. -/
def Reads (reader : ByteReader α) (bytes : Bytes) (value : α) : Prop :=
  ∀ rest, reader (bytes ++ rest) = .ok (value, rest)

theorem reads_pure (value : α) : Reads (pure value) [] value := fun _ => rfl

theorem Reads.bind {first second : Bytes} {result : β} (hfirst : Reads reader first value)
    (hsecond : Reads (next value) second result) :
    Reads (reader >>= next) (first ++ second) result := by
  intro rest
  rw [append_assoc]
  show (do let (a, s) ← reader (first ++ (second ++ rest)); next a s) = _
  rw [hfirst]
  exact hsecond rest

section

variable (h : Reads reader bytes value)
include h

theorem Reads.map (f : α → β) : Reads (f <$> reader) bytes (f value) := by
  intro rest
  show (do let (a, s) ← reader (bytes ++ rest); pure (f a, s)) = _
  rw [h]
  rfl

variable (next) in
/-- After a value was read the next reader gets the rest. -/
theorem Reads.bind_apply (rest : Bytes) : (reader >>= next) (bytes ++ rest) = next value rest := by
  show (do let (a, s) ← reader (bytes ++ rest); next a s) = _
  rw [h]
  rfl

theorem Reads.bindPure {f : α → β} :
    Reads (reader >>= fun read => pure (f read)) bytes (f value) := by
  rw [bind_pure_comp]
  exact h.map f

/-- A reader that uses up an encoding used it up from the front. -/
theorem Reads.run : reader bytes = .ok (value, []) := by
  simpa using h []

end

theorem reads_replicate {encode : α → Bytes} {values : List α}
    (h : ∀ value ∈ values, Reads reader (encode value) value) :
    Reads (replicateM reader values.length) (values.flatMap encode) values := by
  induction values with
  | nil => exact reads_pure []
  | cons value values ih =>
    have htail := ih fun value hvalue => h value (mem_cons_of_mem _ hvalue)
    exact (h value mem_cons_self).bind htail.bindPure

theorem bind_eq_ok {input : Bytes} {out : β × Bytes} : (reader >>= next) input = .ok out ↔
      ∃ value rest, reader input = .ok (value, rest) ∧ next value rest = .ok out := by
  show (do let (a, s) ← reader input; next a s) = _ ↔ _
  cases hread : reader input with
  | error message => exact ⟨nofun, fun ⟨_, _, h, _⟩ => nomatch h⟩
  | ok read =>
    refine ⟨fun h => ⟨read.1, read.2, rfl, h⟩, ?_⟩
    rintro ⟨value, rest, hvalue, hnext⟩
    cases hvalue
    exact hnext

/-- The byte strings of a result are known already, or pieces of what the reader took. -/
def Within (known : List Bytes) (reader : ByteReader α) (pieces : α → List Bytes) : Prop :=
  ∀ input value rest, reader input = .ok (value, rest) →
    ∃ used, input = used ++ rest ∧ ∀ piece ∈ pieces value, piece ∈ known ∨ piece <:+: used

variable {known : List Bytes} {pieces : α → List Bytes}

theorem within_pure (h : ∀ piece ∈ pieces value, piece ∈ known) :
    Within known (pure value) pieces := by
  intro input result rest hread
  cases hread
  exact ⟨[], rfl, fun piece hpiece => .inl (h piece hpiece)⟩

theorem within_throw (message : String) : Within known (throw message) pieces := by
  intro input result rest hread
  cases hread

theorem within_ite {c : Prop} [Decidable c] {first second : ByteReader α}
    (hfirst : Within known first pieces) (hsecond : Within known second pieces) :
    Within known (if c then first else second) pieces := by
  split_ifs
  · exact hfirst
  · exact hsecond

variable {results : β → List Bytes}

theorem Within.bind (hfirst : Within [] reader pieces)
    (hsecond : ∀ value, Within (pieces value ++ known) (next value) results) :
    Within known (reader >>= next) results := by
  intro input result rest hread
  obtain ⟨value, between, hvalue, hnext⟩ := bind_eq_ok.mp hread
  obtain ⟨before, rfl, hbefore⟩ := hfirst input value between hvalue
  obtain ⟨after, rfl, hafter⟩ := hsecond value between result rest hnext
  refine ⟨before ++ after, (append_assoc ..).symm, fun piece hpiece => ?_⟩
  rcases hafter piece hpiece with h | h
  · rcases mem_append.mp h with h | h
    · have hpiece := (hbefore piece h).resolve_left not_mem_nil
      exact .inr (hpiece.trans (prefix_append before after).isInfix)
    · exact .inl h
  · exact .inr (h.trans (suffix_append before after).isInfix)

theorem Within.map (h : Within [] reader pieces) {f : α → β}
    (hf : ∀ value, ∀ piece ∈ results (f value), piece ∈ pieces value) :
    Within [] (f <$> reader) results := by
  rw [← bind_pure_comp]
  refine h.bind fun value => within_pure fun piece hpiece => ?_
  rw [append_nil]
  exact hf value piece hpiece

theorem within_replicate (h : Within [] reader pieces) (count : ℕ) :
    Within [] (replicateM reader count) fun values => values.flatMap pieces := by
  induction count with
  | zero => exact within_pure fun piece hpiece => hpiece
  | succ count ih =>
    refine h.bind fun value => ih.bind fun values => within_pure fun piece hpiece => ?_
    rw [flatMap_cons, mem_append] at hpiece
    rw [mem_append, append_nil]
    exact hpiece.symm

end ByteReader
end ShardKv
