import Mathlib.Data.List.Basic

/-!
# A block of slots

Slots hold items of any type at indices from zero on. An access outside the block has no result.
What a store or a move does is stated for slots that are given in parts, and the list operations
that the parts stand for are stated beside it: inserting an item, erasing one, and erasing one
whose place the last item takes.
-/

namespace VHttp.Slots

universe u
variable {Item : Type u}

/-- Store an item at an index. -/
def store (slots : List Item) (index : Nat) (item : Item) : Option (List Item) :=
  if index < slots.length then some (slots.set index item) else none

/-- memmove of some slots: the source is read before anything is written. -/
def move (slots : List Item) (target source count : Nat) : Option (List Item) :=
  if target + count ≤ slots.length ∧ source + count ≤ slots.length then
    some (slots.take target ++ (slots.drop source).take count ++ slots.drop (target + count))
  else none

/-- Erase an item and put the last one in its place. -/
def eraseUnordered (items : List Item) (index : Nat) : List Item :=
  match items.getLast? with
  | some last => if index < items.length then (items.set index last).dropLast else items
  | none => items

section Parts

variable {front back rest : List Item} {item gap : Item}

theorem store_behind (front rest : List Item) (gap item : Item) :
    store (front ++ gap :: rest) front.length item = some (front ++ item :: rest) := by
  have inside : front.length < (front ++ gap :: rest).length := by simp
  rw [store, if_pos inside]
  simp

/-- A store outside the block has no result. -/
theorem store_outside {slots : List Item} {index : Nat} (outside : slots.length ≤ index)
    (item : Item) : store slots index item = none :=
  if_neg (Nat.not_lt.mpr outside)

/-- Slots that move up by one leave the first of them free. -/
theorem move_up (front back rest : List Item) (gap : Item) :
    ∃ free, move (front ++ back ++ gap :: rest) (front.length + 1) front.length back.length =
      some (front ++ free :: back ++ rest) := by
  have inside : front.length + 1 + back.length ≤ (front ++ back ++ gap :: rest).length ∧
      front.length + back.length ≤ (front ++ back ++ gap :: rest).length := by
    simp only [List.length_append, List.length_cons]
    omega
  obtain ⟨free, others, split⟩ : ∃ free others, back ++ gap :: rest = free :: others :=
    List.exists_cons_of_ne_nil (by simp)
  refine ⟨free, ?_⟩
  have lower : (front ++ back ++ gap :: rest).take (front.length + 1) = front ++ [free] := by
    have whole : front ++ back ++ gap :: rest = (front ++ [free]) ++ others := by
      rw [List.append_assoc, split]
      simp
    have size : front.length + 1 = (front ++ [free]).length := by simp
    rw [whole, size, List.take_left]
  have upper : (front ++ back ++ gap :: rest).drop (front.length + 1 + back.length) = rest := by
    have whole : front ++ back ++ gap :: rest = (front ++ back ++ [gap]) ++ rest := by simp
    have size : front.length + 1 + back.length = (front ++ back ++ [gap]).length := by
      simp only [List.length_append, List.length_singleton]
      omega
    rw [whole, size, List.drop_left]
  have middle : ((front ++ back ++ gap :: rest).drop front.length).take back.length = back := by
    rw [List.append_assoc, List.drop_left, List.take_left]
  rw [move, if_pos inside, lower, middle, upper]
  simp

/-- Slots that move down by one overwrite the one in front of them. -/
theorem move_down (front back rest : List Item) (gap : Item) :
    ∃ left, move (front ++ gap :: back ++ rest) front.length (front.length + 1) back.length =
      some (front ++ back ++ left :: rest) := by
  have inside : front.length + back.length ≤ (front ++ gap :: back ++ rest).length ∧
      front.length + 1 + back.length ≤ (front ++ gap :: back ++ rest).length := by
    simp only [List.length_append, List.length_cons]
    omega
  have lower : (front ++ gap :: back ++ rest).take front.length = front := by
    rw [List.append_assoc, List.take_left]
  have middle : ((front ++ gap :: back ++ rest).drop (front.length + 1)).take back.length =
      back := by
    have whole : front ++ gap :: back ++ rest = (front ++ [gap]) ++ (back ++ rest) := by simp
    have size : front.length + 1 = (front ++ [gap]).length := by simp
    rw [whole, size, List.drop_left, List.take_left]
  obtain ⟨left, split⟩ : ∃ left,
      (front ++ gap :: back ++ rest).drop (front.length + back.length) = left :: rest := by
    obtain ⟨others, last, same⟩ := List.eq_nil_or_concat' (gap :: back) |>.resolve_left (by simp)
    have size : others.length = back.length := by
      have both := congrArg List.length same
      simp only [List.length_cons, List.length_append, List.length_nil] at both
      omega
    refine ⟨last, ?_⟩
    rw [same, ← size, ← List.length_append, ← List.append_assoc, List.append_assoc,
      List.drop_left]
    rfl
  refine ⟨left, ?_⟩
  rw [move, if_pos inside, lower, middle, split]

theorem insertIdx_between (front back : List Item) (item : Item) :
    (front ++ back).insertIdx front.length item = front ++ item :: back := by
  induction front with
  | nil => rfl
  | cons first front inductionHypothesis =>
    rw [List.cons_append, List.length_cons, List.insertIdx_succ_cons, inductionHypothesis,
      List.cons_append]

theorem eraseIdx_between (front back : List Item) (gap : Item) :
    (front ++ gap :: back).eraseIdx front.length = front ++ back := by
  rw [List.eraseIdx_append_of_length_le (Nat.le_refl _), Nat.sub_self, List.eraseIdx_zero,
    List.tail_cons]

/-- The last item takes the place of one in front of it. -/
theorem eraseUnordered_between (front back : List Item) (gap last : Item) :
    eraseUnordered (front ++ gap :: back ++ [last]) front.length = front ++ last :: back := by
  have inside : front.length < (front ++ gap :: back ++ [last]).length := by simp
  rw [eraseUnordered, List.getLast?_concat]
  simp only [inside, ↓reduceIte]
  rw [List.append_assoc, List.cons_append, List.set_append_right _ _ (Nat.le_refl _),
    Nat.sub_self, List.set_cons_zero, ← List.cons_append, ← List.append_assoc,
    List.dropLast_concat]

theorem eraseUnordered_last (front : List Item) (last : Item) :
    eraseUnordered (front ++ [last]) front.length = front := by
  have inside : front.length < (front ++ [last]).length := by simp
  rw [eraseUnordered, List.getLast?_concat]
  simp only [inside, ↓reduceIte]
  rw [List.set_append_right _ _ (Nat.le_refl _), Nat.sub_self, List.set_cons_zero,
    List.dropLast_concat]

theorem eraseUnordered_outside {items : List Item} {index : Nat} (outside : items.length ≤ index) :
    eraseUnordered items index = items := by
  rw [eraseUnordered]
  split
  · rw [if_neg (Nat.not_lt.mpr outside)]
  · rfl

/-- An index inside is the last one, or there is a last item behind it. -/
theorem index_cases {items : List Item} {index : Nat} (inside : index < items.length) :
    (∃ front last, items = front ++ [last] ∧ index = front.length) ∨
      ∃ front gap back last, items = front ++ gap :: back ++ [last] ∧ index = front.length := by
  have split : items = items.take index ++ items[index] :: items.drop (index + 1) := by
    rw [← List.drop_eq_getElem_cons inside, List.take_append_drop]
  have size : index = (items.take index).length := by
    rw [List.length_take, Nat.min_eq_left (Nat.le_of_lt inside)]
  rcases List.eq_nil_or_concat' (items.drop (index + 1)) with none | ⟨back, last, some⟩
  · exact Or.inl ⟨items.take index, items[index], none ▸ split, size⟩
  · refine Or.inr ⟨items.take index, items[index], back, last, ?_, size⟩
    rw [some] at split
    rw [List.append_assoc, List.cons_append]
    exact split

end Parts

end VHttp.Slots
