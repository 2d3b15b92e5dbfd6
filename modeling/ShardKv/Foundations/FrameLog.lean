import Mathlib.Data.List.Infix

/-!
# Logs of frames

A reader takes one item off the front of a string and returns the rest, stops,
or fails. A log is the concatenation of the frames of its items. When each
frame is read back whole and no proper part of it is taken for an item, every
initial part of the log reads as the items whose frames lie inside it.
-/
namespace ShardKv

open List
variable {α β σ : Type*}

theorem Except.map_eq_ok {ε : Type*} {f : α → β} {result : Except ε α} {out : β} :
    result.map f = .ok out ↔ ∃ value, result = .ok value ∧ f value = out := by
  cases result <;> simp [Except.map]

theorem Except.bind_eq_ok {ε : Type*} {result : Except ε α} {next : α → Except ε β} {out : β} :
    result.bind next = .ok out ↔ ∃ value, result = .ok value ∧ next value = .ok out := by
  cases result <;> simp [Except.bind]

/-- A list with a bad element splits at the first one. -/
theorem exists_first_not {good : β → Prop} {items : List β} (h : ¬∀ item ∈ items, good item) :
    ∃ before bad after, items = before ++ bad :: after ∧ (∀ item ∈ before, good item) ∧
      ¬good bad := by
  induction items with
  | nil => exact absurd (fun item hitem => absurd hitem not_mem_nil) h
  | cons item items ih =>
    by_cases hitem : good item
    · have hrest : ¬∀ other ∈ items, good other := fun hall =>
        h (forall_mem_cons.mpr ⟨hitem, hall⟩)
      obtain ⟨before, bad, after, rfl, hbefore, hbad⟩ := ih hrest
      exact ⟨item :: before, bad, after, rfl, forall_mem_cons.mpr ⟨hitem, hbefore⟩, hbad⟩
    · exact ⟨[], item, items, rfl, by simp, hitem⟩

/-- A reader of items from strings over `σ`; every item uses up some input. -/
structure Reader (σ ε α : Type*) where
  next : List σ → Except ε (Option (α × List σ))
  shrinks : ∀ {input item rest}, next input = .ok (some (item, rest)) → rest.length < input.length

/-- The initial items of a log whose frames fit into `size` symbols. -/
def framesWithin {σ β : Type*} (frame : β → List σ) : ℕ → List β → List β
  | _, [] => []
  | size, item :: items =>
    if (frame item).length ≤ size then
      item :: framesWithin frame (size - (frame item).length) items
    else []

/-- Frames that fit stay, whatever is logged after them. -/
theorem framesWithin_append (frame : β → List σ) (items later : List β) (size : ℕ) :
    framesWithin frame ((items.flatMap frame).length + size) (items ++ later) =
      items ++ framesWithin frame size later := by
  induction items with
  | nil => simp
  | cons item items ih =>
    have hfits : (frame item).length ≤ ((item :: items).flatMap frame).length + size := by
      simp only [flatMap_cons, length_append]
      omega
    have hrest : ((item :: items).flatMap frame).length + size - (frame item).length =
        (items.flatMap frame).length + size := by
      simp only [flatMap_cons, length_append]
      omega
    rw [cons_append, framesWithin, if_pos hfits, hrest, ih, cons_append]

theorem framesWithin_length_flatMap (frame : β → List σ) (items : List β) :
    framesWithin frame (items.flatMap frame).length items = items := by
  have h := framesWithin_append frame items [] 0
  rwa [append_nil, Nat.add_zero, framesWithin, append_nil] at h

theorem framesWithin_map (frame : β → List σ) (f : α → β) (items : List α) (size : ℕ) :
    framesWithin frame size (items.map f) = (framesWithin (frame ∘ f) size items).map f := by
  induction items generalizing size with
  | nil => rfl
  | cons item items ih =>
    simp only [map_cons, framesWithin, Function.comp_apply, ih]
    split_ifs <;> rfl

theorem framesWithin_isPrefix (frame : β → List σ) (items : List β) (size : ℕ) :
    framesWithin frame size items <+: items := by
  induction items generalizing size with
  | nil => exact prefix_refl _
  | cons item items ih =>
    rw [framesWithin]
    split_ifs
    · exact cons_prefix_cons.mpr ⟨rfl, ih _⟩
    · exact nil_prefix

/-- Takes a given number of items off the front of a string. -/
def parseTimes {σ α : Type*} (parse : List σ → Option (α × List σ)) :
    ℕ → List σ → Option (List α × List σ)
  | 0, input => some ([], input)
  | count + 1, input =>
    match parse input with
    | none => none
    | some (item, rest) => (parseTimes parse count rest).map fun out => (item :: out.1, out.2)

/-- A parser of single items that accepts exactly the encodings of good items gives one of
counted sequences that does. -/
theorem parseTimes_eq_some {parse : List σ → Option (α × List σ)} {good : α → Prop}
    {encode : α → List σ}
    (hparse : ∀ {input item rest}, parse input = some (item, rest) ↔
      good item ∧ input = encode item ++ rest)
    {count : ℕ} {input rest : List σ} {items : List α} :
    parseTimes parse count input = some (items, rest) ↔
      items.length = count ∧ (∀ item ∈ items, good item) ∧
        input = items.flatMap encode ++ rest := by
  induction count generalizing input items with
  | zero =>
    simp only [parseTimes, Option.some.injEq, Prod.mk.injEq, length_eq_zero_iff]
    constructor
    · rintro ⟨rfl, rfl⟩
      simp
    · rintro ⟨rfl, _, hinput⟩
      exact ⟨rfl, by simpa using hinput⟩
  | succ count ih =>
    cases items with
    | nil =>
      rw [parseTimes]
      split <;> simp [Option.map_eq_some_iff]
    | cons item items =>
      have hcons : parseTimes parse (count + 1) input = some (item :: items, rest) ↔
          ∃ after, parse input = some (item, after) ∧
            parseTimes parse count after = some (items, rest) := by
        rw [parseTimes]
        split
        · rename_i hnone
          simp [hnone]
        · rename_i first after hfirst
          simp only [hfirst, Option.map_eq_some_iff, Prod.mk.injEq, List.cons.injEq,
            Option.some.injEq]
          constructor
          · rintro ⟨out, hout, ⟨rfl, rfl⟩, rfl⟩
            exact ⟨after, ⟨rfl, rfl⟩, hout⟩
          · rintro ⟨_, ⟨rfl, rfl⟩, hout⟩
            exact ⟨_, hout, ⟨rfl, rfl⟩, rfl⟩
      rw [hcons]
      simp only [hparse, ih, length_cons, Nat.add_right_cancel_iff, forall_mem_cons,
        flatMap_cons, append_assoc]
      constructor
      · rintro ⟨after, ⟨hitem, rfl⟩, hcount, hitems, rfl⟩
        exact ⟨hcount, ⟨hitem, hitems⟩, rfl⟩
      · rintro ⟨hcount, ⟨hitem, hitems⟩, rfl⟩
        exact ⟨_, ⟨hitem, rfl⟩, hcount, hitems, rfl⟩

namespace Reader

variable {σ ε α β : Type*} {input : List σ}

/-- All items up to the point where the reader stops, or its first error. -/
def readAll (reader : Reader σ ε α) (input : List σ) : Except ε (List α) :=
  match _h : reader.next input with
  | .error error => .error error
  | .ok none => .ok []
  | .ok (some (item, rest)) => (reader.readAll rest).map fun items => item :: items
termination_by input.length
decreasing_by exact reader.shrinks ‹_›

variable (reader : Reader σ ε α)

theorem readAll_of_error {error : ε} (h : reader.next input = .error error) :
    reader.readAll input = .error error := by
  rw [readAll]
  split <;> simp_all

theorem readAll_of_none (h : reader.next input = .ok none) : reader.readAll input = .ok [] := by
  rw [readAll]
  split <;> simp_all

theorem readAll_of_some {rest : List σ} {item : α} (h : reader.next input = .ok (some (item, rest))) :
    reader.readAll input = (reader.readAll rest).map fun items => item :: items := by
  rw [readAll]
  split <;> simp_all

/-- A frame that is read back as `item` and whose proper initial parts are not read at all. -/
structure Frames (frame : List σ) (item : α) : Prop where
  whole : ∀ rest, reader.next (frame ++ rest) = .ok (some (item, rest))
  torn : ∀ part, part <+: frame → part ≠ frame → reader.next part = .ok none

variable {reader} {frame : β → List σ} {item : β → α}

theorem readAll_flatMap_append {log : List β}
    (hlog : ∀ entry ∈ log, reader.Frames (frame entry) (item entry)) (rest : List σ) :
    reader.readAll (log.flatMap frame ++ rest) =
      (reader.readAll rest).map fun items => log.map item ++ items := by
  induction log with
  | nil =>
    simp only [flatMap_nil, nil_append, map_nil]
    cases reader.readAll rest <;> rfl
  | cons entry log ih =>
    have hentry := hlog entry mem_cons_self
    have hrest := ih fun other hother => hlog other (mem_cons_of_mem _ hother)
    rw [flatMap_cons, append_assoc, reader.readAll_of_some (hentry.whole _), hrest]
    cases reader.readAll rest <;> rfl

/-- Every initial part of a log of frames reads as the items whose frames it contains. -/
theorem readAll_part (hstop : reader.next [] = .ok none) {log : List β}
    (hlog : ∀ entry ∈ log, reader.Frames (frame entry) (item entry)) {part : List σ}
    (hpart : part <+: log.flatMap frame) :
    reader.readAll part = .ok ((framesWithin frame part.length log).map item) := by
  induction log generalizing part with
  | nil =>
    rw [flatMap_nil, prefix_nil] at hpart
    rw [hpart, reader.readAll_of_none hstop]
    rfl
  | cons entry log ih =>
    have hentry := hlog entry mem_cons_self
    have hrest := fun other hother => hlog other (mem_cons_of_mem _ hother)
    rw [flatMap_cons] at hpart
    by_cases hfits : (frame entry).length ≤ part.length
    · -- The first frame is whole, so the argument goes on with what follows it.
      obtain ⟨later, rfl⟩ := prefix_of_prefix_length_le (prefix_append _ _) hpart hfits
      have hlater : later <+: log.flatMap frame := (prefix_append_right_inj _).mp hpart
      rw [reader.readAll_of_some (hentry.whole later), ih hrest hlater]
      simp [framesWithin, Except.map]
    · -- The cut is inside the first frame.
      have hinside : part <+: frame entry :=
        prefix_of_prefix_length_le hpart (prefix_append _ _) (by omega)
      have hne : part ≠ frame entry := by
        rintro rfl
        exact hfits le_rfl
      rw [reader.readAll_of_none (hentry.torn part hinside hne), framesWithin, if_neg hfits]
      rfl

end Reader
end ShardKv
