import ShardKv.Foundations.ByteReader

/-!
# Readers with a budget

A reader of bytes that also spends from a budget, one unit for each value it reads. What
it takes for a value, and what it spends on it, is known without what comes after, so that
both add up along `>>=`.
-/
namespace ShardKv

abbrev BudgetReader := StateT ℕ ByteReader

namespace BudgetReader

variable {α β : Type}

/-- Takes one unit. -/
def spend (exhausted : String) : BudgetReader Unit := fun budget =>
  match budget with
  | 0 => throw exhausted
  | budget + 1 => pure ((), budget)

/-- A reader that spends nothing. -/
def free (reader : ByteReader α) : BudgetReader α := fun budget => do
  let value ← reader
  return (value, budget)

/-- In front of anything and with any budget left, `bytes` is read as `value` for `used` units. -/
def Spends (reader : BudgetReader α) (used : ℕ) (bytes : Bytes) (value : α) : Prop :=
  ∀ budget, ByteReader.Reads (reader (used + budget)) bytes (value, budget)

theorem spends_pure (value : α) : Spends (pure value) 0 [] value := by
  intro budget
  rw [Nat.zero_add]
  exact ByteReader.reads_pure (value, budget)

theorem spends_spend (exhausted : String) : Spends (spend exhausted) 1 [] () := by
  intro budget
  rw [Nat.add_comm]
  exact ByteReader.reads_pure ((), budget)

theorem spends_free {reader : ByteReader α} {bytes : Bytes} {value : α}
    (h : ByteReader.Reads reader bytes value) : Spends (free reader) 0 bytes value := by
  intro budget
  rw [Nat.zero_add]
  exact h.bindPure

section Bind

variable {reader : BudgetReader α} {next : α → BudgetReader β} {used used' : ℕ}
  {first second : Bytes} {value : α} {result : β}

theorem Spends.bind (hfirst : Spends reader used first value)
    (hsecond : Spends (next value) used' second result) :
    Spends (reader >>= next) (used + used') (first ++ second) result := by
  intro budget
  rw [Nat.add_assoc]
  show ByteReader.Reads (reader (used + (used' + budget)) >>= fun read => next read.1 read.2) _ _
  refine (hfirst (used' + budget)).bind ?_
  exact hsecond budget

theorem Spends.bindPure {f : α → β} (h : Spends reader used first value) :
    Spends (reader >>= fun read => pure (f read)) used first (f value) := by
  have hbind : Spends (reader >>= fun read => pure (f read)) (used + 0) (first ++ []) (f value) :=
    h.bind (spends_pure (f value))
  rwa [List.append_nil] at hbind

end Bind
end BudgetReader
end ShardKv
