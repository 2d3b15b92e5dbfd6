import ShardKv.Foundations.Cursor
import ShardKv.Objects.ListObject

/-!
# List objects refine plain sequences

`Denotes` relates each layer of the list container to the sequence it stores;
for the chunk deque it also says that no chunk is empty. Every operation keeps
the relation and never reaches a panic site, provided that indices are in the
range the bucket commands normalize them to. The last section runs arbitrary
operation sequences from the empty list.
-/
namespace ShardKv

open SegmentedList List SmallListDeque ListObject
variable {xs ys values : List Bytes} {index : ℕ}

theorem vecInsert_eq (h : index ≤ values.length)
    (value : Bytes) : vecInsert values index value = .ok (values.insertIdx index value) :=
  if_pos h

theorem vecRemove_eq (h : index < values.length) :
    vecRemove values index = .ok (values[index], values.eraseIdx index) := by
  simp [vecRemove, h]

theorem usizeSub_eq {a b : ℕ} (h : b ≤ a) : usizeSub a b = .ok (a - b) := if_pos h

theorem Succeeds.expectOk {ε α : Type} {x : Except ε α} {post : α → Prop} (h : Succeeds x post)
    (fault : ListFault) : Succeeds (expectOk fault x) post := by
  obtain ⟨a, rfl, ha⟩ := h
  exact .ok ha

theorem Ring.Denotes.takeAll_spec {cap : ℕ} [NeZero cap] {ring : Ring Bytes cap}
    (h : ring.Denotes xs) (fault : ListFault) :
    Succeeds (expectSome fault ring.takeAll) fun out => out.1 = xs ∧ out.2.Denotes [] := by
  obtain ⟨drained, htake, hempty⟩ := h.takeAll
  rw [htake]
  exact .ok ⟨rfl, hempty⟩

/-- The reference effect of pushing several values, one after the other, at one end. -/
def pushSeq (front : Bool) (xs values : List Bytes) : List Bytes :=
  if front then values.reverse ++ xs else xs ++ values

@[simp] theorem pushSeq_nil (front : Bool) (xs : List Bytes) : pushSeq front xs [] = xs := by
  cases front <;> simp [pushSeq]

theorem pushSeq_cons (front : Bool) (xs : List Bytes) (value : Bytes) (values : List Bytes) :
    pushSeq front xs (value :: values) = pushSeq front (pushSeq front xs [value]) values := by
  cases front <;> simp [pushSeq]

theorem length_pushSeq (front : Bool) (xs values : List Bytes) :
    (pushSeq front xs values).length = xs.length + values.length := by
  cases front <;> simp [pushSeq, Nat.add_comm]

/-- A loop that pushes one value after the other succeeds as long as there is room. -/
theorem pushLoop_spec {σ : Type} {denotes : σ → List Bytes → Prop} {front : Bool} {room : ℕ}
    {push : σ → Bytes → Except ListFault σ} {loop : σ → List Bytes → Except ListFault σ}
    (hnil : ∀ s, loop s [] = .ok s)
    (hcons : ∀ s value values, loop s (value :: values) = push s value >>= (loop · values))
    (hpush : ∀ s xs value, denotes s xs → xs.length < room →
      Succeeds (push s value) (denotes · (pushSeq front xs [value]))) (values : List Bytes) :
    ∀ {s : σ} {xs : List Bytes}, denotes s xs → xs.length + values.length ≤ room →
      Succeeds (loop s values) (denotes · (pushSeq front xs values)) := by
  induction values with
  | nil =>
    intro s xs h _
    rw [hnil, pushSeq_nil]
    exact .ok h
  | cons value values ih =>
    intro s xs h hroom
    rw [length_cons] at hroom
    rw [hcons, pushSeq_cons]
    refine (hpush s xs value h (by omega)).bind fun s' h' => ih h' ?_
    rw [length_pushSeq, length_singleton]
    omega

namespace SmallListDeque

variable {list : SmallListDeque}

theorem fromVec_spec (h : values.length ≤ smallListInline) :
    Succeeds (fromVec values) (Ring.Denotes · values) := by
  simp only [fromVec, debugAssert, h, decide_true, if_true]
  have hpushed : Succeeds (pushAll Ring.new values) (Ring.Denotes · (pushSeq false [] values)) :=
    pushLoop_spec (fun _ => rfl) (fun _ _ _ => rfl)
      (fun _ _ value h hlt => (h.pushBack hlt value).expectOk _) values Ring.denotes_new
      (by simpa using h)
  exact hpushed

theorem insert_spec (h : list.Denotes xs) (hlt : xs.length < smallListInline)
    (hi : index ≤ xs.length) (value : Bytes) :
    Succeeds (insert list index value) (Succeeds · (Ring.Denotes · (xs.insertIdx index value))) := by
  have hfull : ¬ list.isFull = true := fun hf => hlt.ne (h.isFull_iff.mp hf)
  have hfits : (xs.insertIdx index value).length ≤ smallListInline := by
    rw [length_insertIdx_of_le_length hi]
    exact hlt
  rw [insert, if_neg hfull]
  refine (h.takeAll_spec _).bind fun out hout => ?_
  rw [hout.1]
  exact .bind_eq (vecInsert_eq hi value) ((fromVec_spec hfits).bind fun _ hd => .ok (.ok hd))

theorem remove_spec (h : list.Denotes xs) (hi : index < xs.length) :
    Succeeds (remove list index) fun out =>
      out.1 = xs[index]? ∧ out.2.Denotes (xs.eraseIdx index) := by
  have hle := h.length_le
  have hfits : (xs.eraseIdx index).length ≤ smallListInline := by
    rw [length_eraseIdx_of_lt hi]
    omega
  rw [remove, if_neg (by rw [h.len_eq]; omega)]
  refine (h.takeAll_spec _).bind fun out hout => ?_
  rw [hout.1]
  refine .bind_eq (vecRemove_eq hi) ((fromVec_spec hfits).bind fun _ hd => .ok ⟨?_, hd⟩)
  exact (List.getElem?_eq_getElem hi).symm

theorem pushValuesSmall_spec (front : Bool) (values : List Bytes) (h : list.Denotes xs)
    (hroom : xs.length + values.length ≤ smallListInline) :
    Succeeds (pushValuesSmall list front values) (Ring.Denotes · (pushSeq front xs values)) := by
  refine @pushLoop_spec _ Ring.Denotes front _ _ (pushValuesSmall · front) (fun _ => rfl)
    (fun _ _ _ => rfl) (fun _ _ value h hlt => ?_) values _ _ h hroom
  cases front with
  | true => exact (h.pushFront hlt value).expectOk _
  | false => exact (h.pushBack hlt value).expectOk _

end SmallListDeque

theorem ListChunk.remove_spec {chunk : ListChunk} (h : chunk.Denotes xs) (hi : index < xs.length) :
    Succeeds (ListChunk.remove chunk index) fun out =>
      out.1 = xs[index]? ∧ out.2.Denotes (xs.eraseIdx index) := by
  have hle := h.length_le
  rw [ListChunk.remove, if_neg (by rw [h.len_eq]; omega)]
  refine (h.takeAll_spec _).bind fun out hout => ?_
  rw [hout.1]
  have hrefilled : Succeeds (refill out.2 (xs.eraseIdx index))
      (Ring.Denotes · (pushSeq false [] (xs.eraseIdx index))) :=
    pushLoop_spec (fun _ => rfl) (fun _ _ _ => rfl)
      (fun _ _ value h hlt => (h.pushBack hlt value).expectOk _) _ hout.2
      (by rw [length_eraseIdx_of_lt hi, length_nil]; omega)
  refine .bind_eq (vecRemove_eq hi) (hrefilled.bind fun _ hd => .ok ⟨?_, hd⟩)
  exact (List.getElem?_eq_getElem hi).symm

/-- Consecutive nonempty chunks store consecutive parts of a sequence. -/
inductive ChunksDenote : List ListChunk → List Bytes → Prop
  | nil : ChunksDenote [] []
  | cons {chunk chunks ys zs} : chunk.Denotes ys → ys ≠ [] → ChunksDenote chunks zs →
      ChunksDenote (chunk :: chunks) (ys ++ zs)

namespace ChunksDenote

variable {chunk : ListChunk} {chunks : List ListChunk}

theorem singleton (h : chunk.Denotes ys) (hne : ys ≠ []) : ChunksDenote [chunk] ys := by
  simpa using cons h hne nil

theorem append {as bs : List ListChunk} (ha : ChunksDenote as xs)
    (hb : ChunksDenote bs ys) : ChunksDenote (as ++ bs) (xs ++ ys) := by
  induction ha with
  | nil => exact hb
  | cons h hne _ ih =>
    rw [cons_append, append_assoc]
    exact cons h hne ih

/-- The last chunk of a deque stores a nonempty end of the sequence. -/
theorem of_concat (h : ChunksDenote (chunks ++ [chunk]) xs) :
    ∃ ys zs, xs = ys ++ zs ∧ ChunksDenote chunks ys ∧ chunk.Denotes zs ∧ zs ≠ [] := by
  induction chunks generalizing xs with
  | nil =>
    cases h with
    | @cons _ _ ys zs hd hne hrest =>
      cases hrest
      exact ⟨[], ys, by simp, nil, hd, hne⟩
  | cons first chunks ih =>
    cases h with
    | @cons _ _ ws vs hd hne hrest =>
      obtain ⟨ys, zs, rfl, hys, hzs, hzne⟩ := ih hrest
      exact ⟨ws ++ ys, zs, by simp, cons hd hne hys, hzs, hzne⟩

/-- A first chunk that has become empty is dropped. -/
theorem front (h : chunk.Denotes ys) (hrest : ChunksDenote chunks xs) :
    ChunksDenote (if chunk.isEmpty then chunks else chunk :: chunks) (ys ++ xs) := by
  rw [h.isEmpty_eq]
  split_ifs with hempty
  · rw [isEmpty_iff.mp hempty]
    exact hrest
  · exact cons h (by simpa using hempty) hrest

/-- And so is a last one. -/
theorem back (hrest : ChunksDenote chunks xs) (h : chunk.Denotes ys) :
    ChunksDenote (if chunk.isEmpty then chunks else chunks ++ [chunk]) (xs ++ ys) := by
  rw [h.isEmpty_eq]
  split_ifs with hempty
  · rw [isEmpty_iff.mp hempty, append_nil]
    exact hrest
  · exact hrest.append (singleton h (by simpa using hempty))

section

variable (h : ChunksDenote chunks xs)
include h

theorem isEmpty_eq_false : ∀ chunk ∈ chunks, chunk.isEmpty = false := by
  induction h with
  | nil => simp
  | cons hd hne _ ih =>
    intro chunk hmem
    rcases mem_cons.mp hmem with rfl | hmem
    · simpa [hd.isEmpty_eq] using hne
    · exact ih chunk hmem

theorem getForward_eq : ∀ offset, getForward chunks offset = xs[offset]? := by
  induction h with
  | nil => intro offset; rfl
  | @cons chunk chunks ys zs hd _ _ ih =>
    intro offset
    rw [getForward, hd.len_eq]
    split_ifs with hlt
    · rw [hd.get_eq, List.getElem?_append_left hlt]
    · rw [ih, List.getElem?_append_right (by omega)]

theorem getBackward_eq :
    ∀ offset < xs.length, getBackward chunks.reverse offset = xs[xs.length - offset - 1]? := by
  induction chunks using List.reverseRecOn generalizing xs with
  | nil =>
    cases h
    simp
  | append_singleton chunks chunk ih =>
    obtain ⟨ys, zs, rfl, hys, hzs, _⟩ := h.of_concat
    intro offset hoff
    rw [length_append] at hoff
    rw [reverse_concat, getBackward, hzs.len_eq, length_append]
    split_ifs
    · rw [hzs.get_eq, List.getElem?_append_right (by omega)]
      congr 1
      omega
    · rw [ih hys (offset - zs.length) (by omega), List.getElem?_append_left (by omega)]
      congr 1
      omega

theorem setForward (value : Bytes) : ∀ offset,
      ChunksDenote (SegmentedList.setForward value chunks offset) (xs.set offset value) := by
  induction h with
  | nil => intro offset; exact nil
  | @cons chunk chunks ys zs hd hne hrest ih =>
    intro offset
    rw [SegmentedList.setForward, hd.len_eq]
    split_ifs with hlt
    · rw [set_append_left _ _ hlt]
      exact cons (hd.set hlt value) (by simpa using hne) hrest
    · rw [set_append_right _ _ (by omega)]
      exact cons hd hne (ih _)

theorem setBackward (value : Bytes) : ∀ offset < xs.length,
      ChunksDenote (SegmentedList.setBackward value chunks.reverse offset).reverse
        (xs.set (xs.length - offset - 1) value) := by
  induction chunks using List.reverseRecOn generalizing xs with
  | nil =>
    cases h
    simp
  | append_singleton chunks chunk ih =>
    obtain ⟨ys, zs, rfl, hys, hzs, hne⟩ := h.of_concat
    intro offset hoff
    rw [length_append] at hoff
    rw [reverse_concat, SegmentedList.setBackward, hzs.len_eq, length_append]
    split_ifs
    · rw [set_append_right _ _ (by omega), reverse_cons, reverse_reverse,
        show ys.length + zs.length - offset - 1 - ys.length = zs.length - offset - 1 by omega]
      exact hys.append (singleton (hzs.set (by omega) value) (by simpa using hne))
    · rw [set_append_left _ _ (by omega), reverse_cons,
        show ys.length + zs.length - offset - 1 = ys.length - (offset - zs.length) - 1 by omega]
      exact (ih hys _ (by omega)).append (singleton hzs hne)

theorem takeChunks_spec : Succeeds (takeChunks chunks) (· = xs) := by
  induction h with
  | nil => exact .ok rfl
  | cons hd _ _ ih =>
    refine (hd.takeAll_spec _).bind fun out hout => ih.bind fun values hvalues => .ok ?_
    rw [hout.1, hvalues]

theorem removeFrom_spec : ∀ offset < xs.length, Succeeds (removeFrom chunks offset) fun found =>
      ∃ chunks', found = some (xs[offset]?, chunks') ∧
        ChunksDenote chunks' (xs.eraseIdx offset) := by
  induction h with
  | nil => simp
  | @cons chunk chunks ys zs hd hne hrest ih =>
    intro offset hlt
    rw [length_append] at hlt
    simp only [removeFrom, hd.len_eq]
    split_ifs with hin
    · rw [List.getElem?_append_left hin, eraseIdx_append_of_lt_length hin]
      refine (ListChunk.remove_spec hd hin).bind fun out hout => .ok ⟨_, ?_, hrest.front hout.2⟩
      rw [hout.1]
    · rw [List.getElem?_append_right (by omega), eraseIdx_append_of_length_le (by omega)]
      refine (ih (offset - ys.length) (by omega)).bind fun found hfound => ?_
      obtain ⟨chunks', rfl, hd'⟩ := hfound
      exact .ok ⟨_, rfl, cons hd hne hd'⟩

end
end ChunksDenote

/-- The cached length is exact and the chunks store the sequence. -/
structure SegmentedList.Denotes (list : SegmentedList) (xs : List Bytes) : Prop where
  len_eq : list.len = xs.length
  chunks : ChunksDenote list.chunks xs

namespace SegmentedList

variable {list : SegmentedList}

theorem denotes_new : new.Denotes [] := ⟨rfl, .nil⟩

section

variable (h : list.Denotes xs) (value : Bytes)
include h

theorem pushFrontChunk_spec : Succeeds (list.pushFrontChunk value) (·.Denotes (value :: xs)) := by
  have hnew : (Ring.new : ListChunk).Denotes [] := Ring.denotes_new
  refine ((hnew.pushFront (by decide) value).expectOk _).bind fun chunk hd => .ok ⟨?_, ?_⟩
  · simp [h.len_eq]
  · exact .cons hd (by simp) h.chunks

theorem pushFront_spec : Succeeds (list.pushFront value) (·.Denotes (value :: xs)) := by
  obtain ⟨chunks, len⟩ := list
  cases chunks with
  | nil => exact pushFrontChunk_spec h value
  | cons chunk =>
    by_cases hfull : chunk.isFull = true
    · simp only [pushFront, hfull, if_true]
      exact pushFrontChunk_spec h value
    · obtain ⟨hlen, hchunks⟩ := h
      cases hchunks with
      | cons hd hne hrest =>
        have hlt := lt_of_le_of_ne hd.length_le fun he => hfull (hd.isFull_iff.mpr he)
        simp only [pushFront, hfull, Bool.false_eq_true, if_false]
        refine ((hd.pushFront hlt value).expectOk _).bind fun chunk' hd' => .ok ⟨?_, ?_⟩
        · simpa using hlen
        · exact .cons hd' (by simp) hrest

theorem pushBackChunk_spec : Succeeds (list.pushBackChunk value) (·.Denotes (xs ++ [value])) := by
  have hnew : (Ring.new : ListChunk).Denotes [] := Ring.denotes_new
  refine ((hnew.pushBack (by decide) value).expectOk _).bind fun chunk hd => .ok ⟨?_, ?_⟩
  · simp [h.len_eq]
  · exact h.chunks.append (.singleton hd (by simp))

theorem pushBack_spec : Succeeds (list.pushBack value) (·.Denotes (xs ++ [value])) := by
  obtain ⟨chunks, len⟩ := list
  induction chunks using List.reverseRecOn with
  | nil => exact pushBackChunk_spec h value
  | append_singleton rest chunk _ =>
    by_cases hfull : chunk.isFull = true
    · simp only [pushBack, List.getLast?_concat, hfull, if_true]
      exact pushBackChunk_spec h value
    · obtain ⟨hlen, hchunks⟩ := h
      obtain ⟨ys, zs, rfl, hys, hzs, hne⟩ := hchunks.of_concat
      have hlt := lt_of_le_of_ne hzs.length_le fun he => hfull (hzs.isFull_iff.mpr he)
      simp only [pushBack, List.getLast?_concat, hfull, Bool.false_eq_true, if_false,
        dropLast_concat]
      refine ((hzs.pushBack hlt value).expectOk _).bind fun chunk' hd' => .ok ⟨?_, ?_⟩
      · simp only [length_append, length_singleton] at hlen ⊢
        omega
      · rw [append_assoc]
        exact hys.append (.singleton hd' (by simp))

end

theorem fromVec_spec (values : List Bytes) : Succeeds (fromVec values) (·.Denotes values) := by
  have hpushed := @pushLoop_spec _ Denotes false _ _ pushAll (fun _ => rfl) (fun _ _ _ => rfl)
      (fun _ _ value h _ => pushBack_spec h value) values _ _ denotes_new le_rfl
  exact hpushed

theorem pushValues_spec (front : Bool) (values : List Bytes) (h : list.Denotes xs) :
    Succeeds (list.pushValues front values) (·.Denotes (pushSeq front xs values)) := by
  cases front with
  | true =>
    exact @pushLoop_spec _ Denotes true _ pushFront (pushValues · true) (fun _ => rfl)
      (fun _ _ _ => rfl) (fun _ _ value h _ => pushFront_spec h value) values _ _ h le_rfl
  | false =>
    exact @pushLoop_spec _ Denotes false _ pushBack (pushValues · false) (fun _ => rfl)
      (fun _ _ _ => rfl) (fun _ _ value h _ => pushBack_spec h value) values _ _ h le_rfl

section

variable (h : list.Denotes xs)
include h

theorem popFront_spec :
    Succeeds list.popFront fun out => out.1 = xs.head? ∧ out.2.Denotes xs.tail := by
  obtain ⟨chunks, len⟩ := list
  obtain ⟨hlen, hchunks⟩ := h
  cases hchunks with
  | nil => exact .ok ⟨rfl, hlen, .nil⟩
  | @cons chunk chunks ys zs hd hne hrest =>
    cases ys with
    | nil => exact absurd rfl hne
    | cons y ys =>
      obtain ⟨chunk', hpop, hd'⟩ := hd.popFront_cons
      have hlen : len = (ys ++ zs).length + 1 := hlen
      simp only [popFront, hpop]
      exact .bind_eq (usizeSub_eq (by omega)) (.ok ⟨rfl, by simp [hlen], hrest.front hd'⟩)

theorem popBack_spec :
    Succeeds list.popBack fun out => out.1 = xs.getLast? ∧ out.2.Denotes xs.dropLast := by
  obtain ⟨chunks, len⟩ := list
  obtain ⟨hlen, hchunks⟩ := h
  induction chunks using List.reverseRecOn with
  | nil =>
    cases hchunks
    exact .ok ⟨rfl, hlen, .nil⟩
  | append_singleton rest chunk _ =>
    obtain ⟨ys, zs, rfl, hys, hzs, hne⟩ := hchunks.of_concat
    induction zs using List.reverseRecOn with
    | nil => exact absurd rfl hne
    | append_singleton zs =>
      obtain ⟨chunk', hpop, hd'⟩ := hzs.popBack_concat
      rw [← append_assoc, List.getLast?_concat, dropLast_concat]
      have hlen : len = (ys ++ zs).length + 1 := by
        simpa [← append_assoc, Nat.add_assoc] using hlen
      simp only [popBack, List.getLast?_concat, dropLast_concat, hpop]
      exact .bind_eq (usizeSub_eq (by omega)) (.ok ⟨rfl, by simp [hlen], hys.back hd'⟩)

theorem Denotes.get_eq (index : ℕ) : list.get index = xs[index]? := by
  unfold SegmentedList.get
  rw [h.len_eq]
  split_ifs with hout hhalf
  · exact (List.getElem?_eq_none hout).symm
  · exact h.chunks.getForward_eq index
  · rw [h.chunks.getBackward_eq _ (by omega)]
    congr 1
    omega

theorem set_spec (hi : index < xs.length) (value : Bytes) :
    Succeeds (list.set index value) (·.Denotes (xs.set index value)) := by
  unfold SegmentedList.set
  rw [h.len_eq]
  split_ifs with hhalf
  · exact .ok ⟨by simp, h.chunks.setForward value index⟩
  · refine .bind_eq (usizeSub_eq hi.le) (.bind_eq (usizeSub_eq (by omega)) (.ok ⟨by simp, ?_⟩))
    have hset := h.chunks.setBackward value (xs.length - index - 1) (by omega)
    rwa [show xs.length - (xs.length - index - 1) - 1 = index by omega] at hset

theorem insert_spec (hi : index ≤ xs.length) (value : Bytes) :
    Succeeds (list.insert index value) (·.Denotes (xs.insertIdx index value)) := by
  unfold SegmentedList.insert
  rw [h.len_eq]
  split_ifs with hzero hend
  · subst index
    simpa using pushFront_spec h value
  · obtain rfl : index = xs.length := by omega
    simpa using pushBack_spec h value
  · obtain ⟨_, htake, rfl⟩ := h.chunks.takeChunks_spec
    rw [SegmentedList.takeAll, htake]
    exact .bind_eq rfl (.bind_eq (vecInsert_eq hi value) (fromVec_spec _))

theorem remove_spec (hi : index < xs.length) : Succeeds (list.remove index) fun out =>
      out.1 = xs[index]? ∧ out.2.Denotes (xs.eraseIdx index) := by
  have hlen := h.len_eq
  rw [SegmentedList.remove, if_neg (by omega)]
  refine (h.chunks.removeFrom_spec index hi).bind fun found hfound => ?_
  obtain ⟨chunks', rfl, hd⟩ := hfound
  refine .bind_eq (usizeSub_eq (by omega)) (.ok ⟨rfl, ?_, hd⟩)
  simp [hlen, length_eraseIdx_of_lt hi]

end
end SegmentedList

theorem SmallListDeque.intoSegmented_spec {list : SmallListDeque}
    (h : list.Denotes xs) : Succeeds (SmallListDeque.intoSegmented list) (·.Denotes xs) := by
  refine (h.takeAll_spec _).bind fun out hout => ?_
  rw [hout.1]
  exact SegmentedList.fromVec_spec xs

theorem RingIter.yields {cap : ℕ} [NeZero cap] {ring : Ring Bytes cap} (h : ring.Denotes xs) :
    ∀ index, Yields RingIter.next { ring := ring, index := index } (xs.drop index) := by
  intro index
  induction hn : xs.length - index generalizing index with
  | zero =>
    rw [drop_of_length_le (by omega)]
    simp [Yields, RingIter.next, h.get_eq, List.getElem?_eq_none (by omega : xs.length ≤ index)]
  | succ n ih =>
    have hlt : index < xs.length := by omega
    rw [drop_eq_getElem_cons hlt]
    exact ⟨_, by simp [RingIter.next, h.get_eq, hlt], ih (index + 1) (by omega)⟩

namespace SegmentedListIter

/-- While the current chunk lasts, its elements come first. -/
theorem yields_append {chunks : List ListChunk} {zs : List Bytes}
    (hzs : Yields next { chunks := chunks, current := none } zs) :
    ∀ {ys : List Bytes} {current : RingIter listChunkCapacity}, Yields RingIter.next current ys →
        Yields next { chunks := chunks, current := some current } (ys ++ zs)
  | [], current, h => by
    have h : current.next = none := h
    cases zs with
    | nil =>
      have hz : advance chunks = none := hzs
      simpa [Yields, next, h] using hz
    | cons z =>
      obtain ⟨it, hz, hrest⟩ := hzs
      have hz : advance chunks = some (z, it) := hz
      exact ⟨it, by simpa [next, h] using hz, hrest⟩
  | y :: ys, current, h => by
    obtain ⟨current', hy, hys⟩ := h
    exact ⟨{ chunks := chunks, current := some current' }, by simp [next, hy],
      yields_append hzs hys⟩

theorem yields {chunks : List ListChunk} (h : ChunksDenote chunks xs) :
    Yields next { chunks := chunks, current := none } xs := by
  induction h with
  | nil => rfl
  | @cons chunk chunks ys zs hd hne _ ih =>
    have hring := RingIter.yields hd 0
    cases ys with
    | nil => exact absurd rfl hne
    | cons =>
      obtain ⟨current, hy, hys⟩ := hring
      refine ⟨{ chunks := chunks, current := some current }, ?_, yields_append ih hys⟩
      change advance (chunk :: chunks) = _
      rw [advance, hy]

end SegmentedListIter

/-- The sequence a list object stores. -/
def ListObject.Denotes : ListObject → List Bytes → Prop
  | .empty, xs => xs = []
  | .single value, xs => xs = [value]
  | .small list, xs => Ring.Denotes list xs
  | .segmented list, xs => list.Denotes xs

namespace ListObject

variable {object : ListObject}

section

variable (h : object.Denotes xs)
include h

theorem Denotes.len_eq : object.len = xs.length := by
  cases object with
  | empty | single => cases h; rfl
  | small => exact Ring.Denotes.len_eq h
  | segmented => exact SegmentedList.Denotes.len_eq h

theorem Denotes.get_eq (index : ℕ) : object.get index = xs[index]? := by
  cases object with
  | empty => cases h; rfl
  | single =>
    cases h
    cases index <;> simp [get]
  | small => exact Ring.Denotes.get_eq h index
  | segmented => exact SegmentedList.Denotes.get_eq h index

theorem Denotes.iter_yields : Yields ListIter.next object.iter xs := by
  cases object with
  | empty => cases h; rfl
  | single =>
    cases h
    exact ⟨.single none, rfl, rfl⟩
  | small => exact (RingIter.yields h 0).map ListIter.small fun _ => rfl
  | segmented => exact (SegmentedListIter.yields h.chunks).map ListIter.segmented fun _ => rfl

end

theorem fromVec_spec (entries : List Bytes) : Succeeds (fromVec entries) (·.Denotes entries) := by
  unfold fromVec
  split_ifs with hzero hone hsmall
  · exact .ok (eq_nil_of_length_eq_zero hzero)
  · obtain ⟨value, rfl⟩ := length_eq_one_iff.mp hone
    exact .ok rfl
  · exact .map (SmallListDeque.fromVec_spec hsmall)
  · exact .map (SegmentedList.fromVec_spec entries)

theorem pushValuesIntoSmall_spec {list : SmallListDeque} (h : Ring.Denotes list xs)
    (values : List Bytes) (front : Bool) :
    Succeeds (pushValuesIntoSmall list values front) (·.Denotes (pushSeq front xs values)) := by
  unfold pushValuesIntoSmall
  rw [h.len_eq]
  split_ifs with hsmall
  · exact .map (pushValuesSmall_spec front values h hsmall)
  · refine (intoSegmented_spec h).bind fun segmented hs => ?_
    exact .map (SegmentedList.pushValues_spec front values hs)

theorem fromValues_spec (values : List Bytes) (front : Bool) :
    Succeeds (fromValues values front) (·.Denotes (pushSeq front [] values)) := by
  match values with
  | [] => exact .ok (pushSeq_nil front [])
  | [value] => exact .ok (by cases front <;> rfl)
  | value :: next :: values => exact pushValuesIntoSmall_spec Ring.denotes_new _ front

/-- One element in the inline ring, as both promotions of a single list build it. -/
theorem pushBack_new_spec (value : Bytes) :
    Succeeds ((Ring.new : SmallListDeque).pushBack value) (·.Denotes [value]) :=
  (Ring.denotes_new : (Ring.new : SmallListDeque).Denotes []).pushBack (by decide) value

section

variable (h : object.Denotes xs)
include h

theorem pushValues_spec (values : List Bytes) (front : Bool) :
    Succeeds (object.pushValues values front) (·.Denotes (pushSeq front xs values)) := by
  unfold pushValues
  by_cases hvalues : values.isEmpty = true
  · rw [if_pos hvalues, isEmpty_iff.mp hvalues, pushSeq_nil]
    exact .ok h
  rw [if_neg hvalues]
  cases object with
  | empty =>
    cases h
    exact fromValues_spec values front
  | single existing =>
    cases h
    split_ifs with hsmall
    · refine ((pushBack_new_spec existing).expectOk _).bind fun list hone => ?_
      exact .map (pushValuesSmall_spec front values hone hsmall)
    · refine (SegmentedList.pushBack_spec SegmentedList.denotes_new existing).bind fun _ hone => ?_
      exact .map (SegmentedList.pushValues_spec front values hone)
  | small => exact pushValuesIntoSmall_spec h values front
  | segmented => exact .map (SegmentedList.pushValues_spec front values h)

theorem popFront_spec :
    Succeeds object.popFront fun out => out.1 = xs.head? ∧ out.2.Denotes xs.tail := by
  cases object with
  | empty | single value => cases h; exact .ok ⟨rfl, rfl⟩
  | small => exact .ok (Ring.Denotes.popFront h)
  | segmented => exact .map (SegmentedList.popFront_spec h)

theorem popBack_spec :
    Succeeds object.popBack fun out => out.1 = xs.getLast? ∧ out.2.Denotes xs.dropLast := by
  cases object with
  | empty | single value => cases h; exact .ok ⟨rfl, rfl⟩
  | small => exact .ok (Ring.Denotes.popBack h)
  | segmented => exact .map (SegmentedList.popBack_spec h)

theorem insert_spec (hi : index ≤ xs.length) (value : Bytes) :
    Succeeds (object.insert index value) (·.Denotes (xs.insertIdx index value)) := by
  cases object with
  | empty =>
    cases h
    obtain rfl : index = 0 := by simpa using hi
    exact .ok rfl
  | single existing =>
    cases h
    refine .bind_eq rfl (((pushBack_new_spec existing).expectOk _).bind fun list hone => ?_)
    refine (insert_spec hone Nat.one_lt_ofNat hi value).bind fun _ hins => ?_
    exact .map (hins.expectOk _)
  | small =>
    unfold insert
    dsimp only
    split_ifs with hfull
    · have hlt : xs.length < smallListInline := by
        refine lt_of_le_of_ne (Ring.Denotes.length_le h) fun he => ?_
        simp [(Ring.Denotes.isFull_iff h).mpr he] at hfull
      refine (insert_spec h hlt hi value).bind fun _ hins => ?_
      obtain ⟨list', rfl, hd⟩ := hins
      exact .ok hd
    · refine (intoSegmented_spec h).bind fun segmented hs => ?_
      exact .map (SegmentedList.insert_spec hs hi value)
  | segmented => exact .map (SegmentedList.insert_spec h hi value)

theorem remove_spec (hi : index < xs.length) : Succeeds (object.remove index) fun out =>
      out.1 = xs[index]? ∧ out.2.Denotes (xs.eraseIdx index) := by
  cases object with
  | empty => cases h; simp at hi
  | single =>
    cases h
    obtain rfl : index = 0 := by simpa using hi
    exact .ok ⟨rfl, rfl⟩
  | small => exact .map (remove_spec h hi)
  | segmented => exact .map (SegmentedList.remove_spec h hi)

theorem set_spec (hi : index < xs.length) (value : Bytes) :
    Succeeds (object.set index value) (·.Denotes (xs.set index value)) := by
  cases object with
  | empty => cases h; simp at hi
  | single =>
    cases h
    obtain rfl : index = 0 := by simpa using hi
    exact .ok rfl
  | small => exact .ok (Ring.Denotes.set h hi value)
  | segmented => exact .map (SegmentedList.set_spec h hi value)

end

theorem clear_denotes (object : ListObject) : object.clear.Denotes [] := by
  cases object with
  | segmented => exact SegmentedList.denotes_new
  | empty | single | small => rfl

end ListObject

/-- The mutating calls a bucket makes on a list object. -/
inductive ListOp
  | pushValues (values : List Bytes) (front : Bool)
  | popFront
  | popBack
  | set (index : ℕ) (value : Bytes)
  | insert (index : ℕ) (value : Bytes)
  | remove (index : ℕ)
  | clear
  deriving DecidableEq, Repr

namespace ListOp

/-- One call on the container; calls without a return value answer `none`. -/
def apply (object : ListObject) : ListOp → Except ListFault (Option Bytes × ListObject)
  | pushValues values front => do
    let object ← object.pushValues values front
    .ok (none, object)
  | popFront => object.popFront
  | popBack => object.popBack
  | set index value => do
    let object ← object.set index value
    .ok (none, object)
  | insert index value => do
    let object ← object.insert index value
    .ok (none, object)
  | remove index => object.remove index
  | clear => .ok (none, object.clear)

/-- The same call on an ordinary sequence. -/
def applySeq (xs : List Bytes) : ListOp → Option Bytes × List Bytes
  | pushValues values front => (none, pushSeq front xs values)
  | popFront => (xs.head?, xs.tail)
  | popBack => (xs.getLast?, xs.dropLast)
  | set index value => (none, xs.set index value)
  | insert index value => (none, xs.insertIdx index value)
  | remove index => (xs[index]?, xs.eraseIdx index)
  | clear => (none, [])

/-- The index range the callers guarantee for a call on a list of length `n`. -/
def InBounds (n : ℕ) : ListOp → Prop
  | set index _ => index < n
  | insert index _ => index ≤ n
  | remove index => index < n
  | _ => True

instance (n : ℕ) : (op : ListOp) → Decidable (op.InBounds n)
  | set index _ => inferInstanceAs (Decidable (index < n))
  | insert index _ => inferInstanceAs (Decidable (index ≤ n))
  | remove index => inferInstanceAs (Decidable (index < n))
  | pushValues .. | popFront | popBack | clear => inferInstanceAs (Decidable True)

/-- Run a sequence of calls, collecting their answers. -/
def run (object : ListObject) : List ListOp → Except ListFault (List (Option Bytes) × ListObject)
  | [] => .ok ([], object)
  | op :: ops => do
    let out ← op.apply object
    let rest ← run out.2 ops
    .ok (out.1 :: rest.1, rest.2)

def runSeq (xs : List Bytes) : List ListOp → List (Option Bytes) × List Bytes
  | [] => ([], xs)
  | op :: ops =>
    let out := op.applySeq xs
    let rest := runSeq out.2 ops
    (out.1 :: rest.1, rest.2)

/-- Every call of the sequence is in bounds for the list it meets. -/
def RunInBounds (xs : List Bytes) : List ListOp → Prop
  | [] => True
  | op :: ops => op.InBounds xs.length ∧ RunInBounds (op.applySeq xs).2 ops

instance RunInBounds.decidable : (xs : List Bytes) → (ops : List ListOp) →
    Decidable (RunInBounds xs ops)
  | _, [] => inferInstanceAs (Decidable True)
  | xs, op :: ops =>
    have := RunInBounds.decidable (op.applySeq xs).2 ops
    inferInstanceAs (Decidable (op.InBounds xs.length ∧ RunInBounds (op.applySeq xs).2 ops))

theorem apply_spec {object : ListObject} (h : object.Denotes xs) (op : ListOp)
    (hb : op.InBounds xs.length) :
    Succeeds (op.apply object) fun out =>
      out.1 = (op.applySeq xs).1 ∧ out.2.Denotes (op.applySeq xs).2 := by
  cases op with
  | pushValues => exact (pushValues_spec h ..).bind fun _ hd => .ok ⟨rfl, hd⟩
  | popFront => exact popFront_spec h
  | popBack => exact popBack_spec h
  | set => exact (set_spec h hb _).bind fun _ hd => .ok ⟨rfl, hd⟩
  | insert => exact (insert_spec h hb _).bind fun _ hd => .ok ⟨rfl, hd⟩
  | remove => exact remove_spec h hb
  | clear => exact .ok ⟨rfl, object.clear_denotes⟩

theorem run_spec (ops : List ListOp) :
    ∀ {object : ListObject} {xs : List Bytes}, object.Denotes xs → RunInBounds xs ops →
      Succeeds (run object ops) fun out =>
        out.1 = (runSeq xs ops).1 ∧ out.2.Denotes (runSeq xs ops).2 := by
  induction ops with
  | nil => exact fun {object xs} h _ => .ok ⟨rfl, h⟩
  | cons op ops ih =>
    intro object xs h hb
    refine (apply_spec h op hb.1).bind fun first hfirst => ?_
    refine (ih hfirst.2 hb.2).bind fun rest hrest => .ok ⟨?_, hrest.2⟩
    rw [hfirst.1, hrest.1]
    rfl

end ListOp

namespace ListObject

/-- The chunks of a list object; only the segmented form has any. -/
def chunks : ListObject → List ListChunk
  | .segmented list => list.chunks
  | _ => []

theorem Denotes.chunks_nonempty {object : ListObject} (h : object.Denotes xs) :
    ∀ chunk ∈ object.chunks, chunk.isEmpty = false := by
  cases object with
  | segmented => exact h.chunks.isEmpty_eq_false
  | empty | single value | small list => simp [chunks]

end ListObject

/-- Starting from the empty list, every sequence of calls in bounds runs without
reaching a panic site, gives the answers of the ordinary sequence, and leaves an
object that stores exactly that sequence: the cached length is exact, reads by
index and iteration agree with it, and no empty chunk is kept. -/
theorem ListOp.run_refines_sequence (ops : List ListOp) (hb : RunInBounds [] ops) :
    ∃ object, run .empty ops = .ok ((runSeq [] ops).1, object) ∧ object.Denotes (runSeq [] ops).2 ∧
      object.len = (runSeq [] ops).2.length ∧
      (∀ index, object.get index = (runSeq [] ops).2[index]?) ∧
      Yields ListIter.next object.iter (runSeq [] ops).2 ∧
      ∀ chunk ∈ object.chunks, chunk.isEmpty = false := by
  have hempty : ListObject.empty.Denotes [] := rfl
  obtain ⟨⟨_, object⟩, hrun, rfl, hd⟩ := run_spec ops hempty hb
  exact ⟨object, hrun, hd, hd.len_eq, hd.get_eq, hd.iter_yields, hd.chunks_nonempty⟩

/-- Pushes on both ends past the inline ring, then calls at both ends and in the middle. -/
def ListOp.sampleRun : List ListOp :=
  [.pushValues [[1]] false, .insert 1 [2], .pushValues [[3], [4], [5]] true,
    .pushValues [[6], [7], [8], [9]] false, .insert 4 [10], .set 8 [11], .remove 2,
    .popFront, .popBack]

theorem ListOp.run_refines_sequence_sample :
    RunInBounds [] sampleRun ∧ (runSeq [] sampleRun).2 = [[4], [1], [10], [2], [6], [7], [11]] ∧
      ∃ object, run .empty sampleRun = .ok ((runSeq [] sampleRun).1, object) ∧
        object.Denotes (runSeq [] sampleRun).2 ∧
        object.len = (runSeq [] sampleRun).2.length ∧
        (∀ index, object.get index = (runSeq [] sampleRun).2[index]?) ∧
        Yields ListIter.next object.iter (runSeq [] sampleRun).2 ∧
        ∀ chunk ∈ object.chunks, chunk.isEmpty = false :=
  ⟨by decide, by decide, run_refines_sequence sampleRun (by decide)⟩

end ShardKv
