import VHttp.Foundations.Cutting
import VHttp.SplitBounds

/-!
# The pieces that a split finds

`VString_SplitBySubstring` reads a string once and does not go back after a failed match. A
separator is found if nothing is matched when it begins; when a failed match runs into it, the
piece goes on behind it. `Start` is a u32, so that a piece that begins at 2^32 or behind is
given a wrong place.
-/

namespace VHttp.Splitting

open Delimiters

/-- Views stored one after another, from an entry on. -/
def stored : Nat → List (Nat × Nat) → List Store
  | _, [] => []
  | entry, view :: views => ⟨entry, view.1, view.2⟩ :: stored (entry + 1) views

/-- The views that a split owes: the pieces between the leftmost separators, less the empty
ones in front of a separator. -/
def pieces (content substring : Bytes) : List (Nat × Nat) :=
  kept substring.length 0 (cut substring content)

/-- What a split owes to its caller: as many stores as it returns, of these views in order, and
no separator in any of them. -/
structure SplitsExactly (content substring : Bytes) (size : UInt32) : Prop where
  counted : (splitBySubstring content substring size).1.toNat = (pieces content substring).length
  views : (splitBySubstring content substring size).2 = stored 0 (pieces content substring)
  separated : ∀ store ∈ (splitBySubstring content substring size).2,
    ¬ substring <:+: (content.drop store.offset).take store.length

/-- Every piece in front of a separator leaves nothing matched, and every separator ends below
2^32. -/
def Found (substring : Bytes) : Nat → List Bytes → Prop
  | _, [] => True
  | _, [_] => True
  | start, piece :: next :: others =>
    Resumes substring piece ∧ start + piece.length + substring.length < 2 ^ 32 ∧
      Found substring (start + piece.length + substring.length) (next :: others)

section Loop

variable {substring : Bytes} {size : UInt32}

theorem found_cons (start : Nat) (piece : Bytes) {others : List Bytes} (more : others ≠ []) :
    Found substring start (piece :: others) ↔ Resumes substring piece ∧
      start + piece.length + substring.length < 2 ^ 32 ∧
      Found substring (start + piece.length + substring.length) others := by
  obtain ⟨next, behind, rfl⟩ := List.exists_cons_of_ne_nil more
  rfl

/-- Bytes in which no separator is found only move the loop on. -/
theorem splitLoop_progress (size : UInt32) (narrow : substring.length < 2 ^ 32)
    (seen rest : Bytes) (index : Nat) {check after : Nat} (start cursor : UInt32) (stores : List Store)
    (inside : check < substring.length) (moved : progress substring seen check = some after) :
    splitLoop substring size (seen ++ rest) index (UInt32.ofNat check) start cursor stores =
      splitLoop substring size rest (index + seen.length) (UInt32.ofNat after) start cursor
        stores := by
  induction seen generalizing index check with
  | nil =>
    obtain rfl : check = after := Option.some.inj moved
    rfl
  | cons byte seen inductionHypothesis =>
    have position : index + 1 + seen.length = index + (byte :: seen).length := by
      rw [List.length_cons]
      omega
    have same : (UInt32.ofNat check).toNat = check :=
      UInt32.toNat_ofNat_of_lt' (by show check < 2 ^ 32; omega)
    rw [progress] at moved
    simp only [List.cons_append, splitLoop, same]
    split at moved
    · rename_i equal
      split at moved
      · simp at moved
      · rename_i incomplete
        have onward : UInt32.ofNat check + 1 = UInt32.ofNat (check + 1) := (UInt32.ofNat_add _ _).symm
        have next : (UInt32.ofNat (check + 1)).toNat = check + 1 :=
          UInt32.toNat_ofNat_of_lt' (by show check + 1 < 2 ^ 32; omega)
        rw [if_pos equal, onward, next, if_neg (fun complete => incomplete complete.symm),
          inductionHypothesis (index + 1) (by omega) moved, position]
    · rename_i differs
      have zero := @inductionHypothesis (index + 1) 0 (by omega) moved
      rw [if_neg differs, ← position]
      exact zero

/-- With nothing matched, a separator that comes next is found. -/
theorem splitLoop_pattern (positive : 0 < substring.length) (narrow : substring.length < 2 ^ 32)
    (rest : Bytes) (index : Nat) (start cursor : UInt32) (stores : List Store)
    (located : start.toNat ≤ index) (short : index + substring.length < 2 ^ 64)
    (room : cursor < size) :
    splitLoop substring size (substring ++ rest) index 0 start cursor stores =
      if index = start.toNat then
        splitLoop substring size rest (index + substring.length) 0
          (UInt32.ofNat (index + substring.length)) cursor stores
      else
        splitLoop substring size rest (index + substring.length) 0
          (UInt32.ofNat (index + substring.length)) (cursor + 1)
          (stores ++ [⟨cursor.toNat, start.toNat, index - start.toNat⟩]) := by
  have nonempty := List.length_pos_iff.mp positive
  have whole : substring ++ rest = substring.dropLast ++ substring.getLast nonempty :: rest := by
    rw [← List.singleton_append, ← List.append_assoc, List.dropLast_concat_getLast]
  have last : substring[substring.length - 1]? = some (substring.getLast nonempty) := by
    rw [← List.getLast?_eq_getElem?, List.getLast?_eq_some_getLast nonempty]
  have same : (UInt32.ofNat (substring.length - 1)).toNat = substring.length - 1 :=
    UInt32.toNat_ofNat_of_lt' (by show substring.length - 1 < 2 ^ 32; omega)
  have complete : substring.length = (UInt32.ofNat (substring.length - 1) + 1).toNat := by
    rw [UInt32.toNat_add, same]
    simp only [UInt32.reduceToNat]
    omega
  have position : index + (substring.length - 1) + 1 = index + substring.length := by omega
  have length : (pieceLength substring (index + (substring.length - 1)) start).toNat =
      index - start.toNat := by
    rw [pieceLength_toNat (by omega) (by omega)]
    omega
  have moved := splitLoop_progress size narrow substring.dropLast
    (substring.getLast nonempty :: rest) index start cursor stores positive
    (progress_dropLast positive)
  rw [List.length_dropLast] at moved
  have zero : UInt32.ofNat 0 = 0 := rfl
  rw [zero] at moved
  rw [whole, moved, splitLoop, same, if_pos last, if_pos complete, if_pos room, position]
  by_cases empty : index = start.toNat
  · have none : pieceLength substring (index + (substring.length - 1)) start = 0 := by
      rw [← UInt64.toNat_inj, length, empty, Nat.sub_self]
      rfl
    rw [if_pos empty, none, if_neg (not_not.mpr rfl)]
  · have some : pieceLength substring (index + (substring.length - 1)) start ≠ 0 := by
      rw [ne_eq, ← UInt64.toNat_inj, length]
      simp only [UInt64.reduceToNat]
      omega
    rw [if_neg empty, if_pos some, length]

/-- The stores made stay made. -/
theorem splitLoop_keeps (substring : Bytes) (size : UInt32) (rest : Bytes) (index : Nat)
    (check start cursor : UInt32) (stores : List Store) :
    stores <+: (splitLoop substring size rest index check start cursor stores).2 := by
  induction rest generalizing index check start cursor stores with
  | nil => exact List.prefix_append _ _
  | cons byte rest inductionHypothesis =>
    simp only [splitLoop]
    split
    · split
      · split
        · split
          · exact (List.prefix_append _ _).trans (inductionHypothesis _ _ _ _ _)
          · exact inductionHypothesis _ _ _ _ _
        · exact List.prefix_refl _
      · exact inductionHypothesis _ _ _ _ _
    · exact inductionHypothesis _ _ _ _ _

/-- The piece that is stored next begins at the start, and is longer than what lies in front of
the bytes matched. -/
theorem splitLoop_next {total : Nat} (short : total < 2 ^ 64) (rest : Bytes) (index bound : Nat)
    (check start cursor : UInt32) (stores : List Store) (whole : index + rest.length = total)
    (far : start.toNat + bound + check.toNat < index) (room : cursor < size) :
    ∃ length others, bound < length ∧
      (splitLoop substring size rest index check start cursor stores).2 =
        stores ++ ⟨cursor.toNat, start.toNat, length⟩ :: others := by
  induction rest generalizing index check with
  | nil =>
    rw [List.length_nil, Nat.add_zero] at whole
    have small : (UInt64.ofNat index).toNat = index :=
      UInt64.toNat_ofNat_of_lt' (by show index < 2 ^ 64; omega)
    have length : (UInt64.ofNat index - start.toUInt64).toNat = index - start.toNat := by
      rw [UInt64.toNat_sub_of_le, small, UInt32.toNat_toUInt64]
      rw [UInt64.le_iff_toNat_le, small, UInt32.toNat_toUInt64]
      omega
    exact ⟨index - start.toNat, [], by omega, by rw [splitLoop, length]⟩
  | cons byte rest inductionHypothesis =>
    rw [List.length_cons] at whole
    have wrapped : (check + 1).toNat ≤ check.toNat + 1 := by
      rw [UInt32.toNat_add]
      exact Nat.mod_le _ _
    simp only [splitLoop]
    split
    · split
      · rename_i complete
        have length : (pieceLength substring index start).toNat =
            index + 1 - substring.length - start.toNat := pieceLength_toNat (by omega) (by omega)
        have some : pieceLength substring index start ≠ 0 := by
          rw [ne_eq, ← UInt64.toNat_inj, length]
          simp only [UInt64.reduceToNat]
          omega
        obtain ⟨others, same⟩ := splitLoop_keeps substring size rest (index + 1) 0
          (UInt32.ofNat (index + 1)) (cursor + 1)
          (stores ++ [⟨cursor.toNat, start.toNat, index + 1 - substring.length - start.toNat⟩])
        refine ⟨index + 1 - substring.length - start.toNat, others, by omega, ?_⟩
        rw [if_pos some, length, ← same, List.append_assoc]
        rfl
      · exact inductionHypothesis (index + 1) (check + 1) (by omega) (by omega)
    · refine inductionHypothesis (index + 1) 0 (by omega) ?_
      simp only [UInt32.reduceToNat]
      omega

/-- A start is a u32. -/
theorem splitLoop_offset (substring : Bytes) (size : UInt32) (rest : Bytes) (index : Nat)
    (check start cursor : UInt32) (stores : List Store)
    (before : ∀ store ∈ stores, store.offset < 2 ^ 32) :
    ∀ store ∈ (splitLoop substring size rest index check start cursor stores).2,
      store.offset < 2 ^ 32 := by
  have added : ∀ stores : List Store, (∀ store ∈ stores, store.offset < 2 ^ 32) →
      ∀ entry length, ∀ (start : UInt32), ∀ store ∈ stores ++ [⟨entry, start.toNat, length⟩],
        store.offset < 2 ^ 32 := by
    intro stores before entry length start store member
    rcases List.mem_append.mp member with earlier | last
    · exact before store earlier
    · rw [List.mem_singleton.mp last]
      exact start.toNat_lt
  induction rest generalizing index check start cursor stores with
  | nil => exact added stores before _ _ start
  | cons byte rest inductionHypothesis =>
    simp only [splitLoop]
    split
    · split
      · split
        · split
          · exact inductionHypothesis _ _ _ _ _ (added stores before _ _ start)
          · exact inductionHypothesis _ _ _ _ _ before
        · exact before
      · exact inductionHypothesis _ _ _ _ _ before
    · exact inductionHypothesis _ _ _ _ _ before

/-- A separator of 2^32 bytes is never found: `Check` does not reach its length. -/
theorem splitLoop_wide (wide : 2 ^ 32 ≤ substring.length) (rest : Bytes) (index : Nat)
    (check start cursor : UInt32) (stores : List Store) :
    splitLoop substring size rest index check start cursor stores =
      (cursor + 1, stores ++ [⟨cursor.toNat, start.toNat,
        (UInt64.ofNat (index + rest.length) - start.toUInt64).toNat⟩]) := by
  induction rest generalizing index check with
  | nil => rfl
  | cons byte rest inductionHypothesis =>
    have incomplete : substring.length ≠ (check + 1).toNat := by
      have bound := (check + 1).toNat_lt
      omega
    have position : index + 1 + rest.length = index + (byte :: rest).length := by
      rw [List.length_cons]
      omega
    simp only [splitLoop, incomplete, ↓reduceIte, inductionHypothesis, position, ite_self]

/-- Every store is of a view. -/
theorem stored_shows {views : List (Nat × Nat)} {entry : Nat} {store : Store}
    (isStored : store ∈ stored entry views) :
    ∃ view ∈ views, store.offset = view.1 ∧ store.length = view.2 := by
  induction views generalizing entry with
  | nil => cases isStored
  | cons first views inductionHypothesis =>
    rcases List.mem_cons.mp isStored with rfl | later
    · exact ⟨first, List.mem_cons_self, rfl, rfl⟩
    · obtain ⟨view, member, same⟩ := inductionHypothesis later
      exact ⟨view, List.mem_cons_of_mem _ member, same⟩

/-- Every view is stored. -/
theorem mem_stored {views : List (Nat × Nat)} {view : Nat × Nat} (member : view ∈ views)
    (entry : Nat) : ∃ store ∈ stored entry views, store.offset = view.1 := by
  induction views generalizing entry with
  | nil => cases member
  | cons first views inductionHypothesis =>
    rcases List.mem_cons.mp member with rfl | later
    · exact ⟨_, List.mem_cons_self, rfl⟩
    · obtain ⟨store, stores, same⟩ := inductionHypothesis later (entry + 1)
      exact ⟨store, List.mem_cons_of_mem _ stores, same⟩

/-- Where no separator is left, the rest is stored. -/
theorem splitLoop_absent (size : UInt32) (positive : 0 < substring.length) {rest : Bytes}
    (absent : ¬ substring <:+: rest) {start : Nat} (placed : start < 2 ^ 32)
    (short : start + rest.length < 2 ^ 64) (cursor : UInt32) (stores : List Store) :
    splitLoop substring size rest start 0 (UInt32.ofNat start) cursor stores =
      (cursor + 1, stores ++ [⟨cursor.toNat, start, rest.length⟩]) := by
  have same : (UInt32.ofNat start).toNat = start := UInt32.toNat_ofNat_of_lt' placed
  have small : (UInt64.ofNat (start + rest.length)).toNat = start + rest.length :=
    UInt64.toNat_ofNat_of_lt' short
  have length : (UInt64.ofNat (start + rest.length) - (UInt32.ofNat start).toUInt64).toNat =
      rest.length := by
    rw [UInt64.toNat_sub_of_le, small, UInt32.toNat_toUInt64, same]
    · omega
    · rw [UInt64.le_iff_toNat_le, small, UInt32.toNat_toUInt64, same]
      omega
  by_cases wide : 2 ^ 32 ≤ substring.length
  · rw [splitLoop_wide wide, length, same]
  · obtain ⟨check, moved⟩ := progress_of_absent positive rest absent
    have read := splitLoop_progress size (by omega) rest [] start (UInt32.ofNat start) cursor
      stores positive moved
    rw [List.append_nil] at read
    rw [show (0 : UInt32) = UInt32.ofNat 0 from rfl, read, splitLoop, length, same]

section Separator

variable {front : Bytes} {start : Nat} {cursor : UInt32}

/-- A separator behind bytes that leave nothing matched ends a piece, which is stored unless it
is empty. -/
theorem splitLoop_found (positive : 0 < substring.length) (resumes : Resumes substring front)
    (rest : Bytes) (near : start + front.length + substring.length < 2 ^ 32)
    (room : cursor < size) (stores : List Store) :
    splitLoop substring size (front ++ substring ++ rest) start 0 (UInt32.ofNat start) cursor
        stores =
      if front = [] then
        splitLoop substring size rest (start + front.length + substring.length) 0
          (UInt32.ofNat (start + front.length + substring.length)) cursor stores
      else
        splitLoop substring size rest (start + front.length + substring.length) 0
          (UInt32.ofNat (start + front.length + substring.length)) (cursor + 1)
          (stores ++ [⟨cursor.toNat, start, front.length⟩]) := by
  have placed : start < 2 ^ 32 := by omega
  have same : (UInt32.ofNat start).toNat = start := UInt32.toNat_ofNat_of_lt' placed
  have narrow : substring.length < 2 ^ 32 := by omega
  have moved := (progress_resumes_iff positive front).mpr resumes
  have read := splitLoop_progress size narrow front (substring ++ rest) start
    (UInt32.ofNat start) cursor stores positive moved
  have next := splitLoop_pattern positive narrow rest (start + front.length)
    (UInt32.ofNat start) cursor stores (by omega) (by omega) room
  rw [show UInt32.ofNat 0 = 0 from rfl, next, same] at read
  rw [List.append_assoc, read, Nat.add_sub_cancel_left]
  by_cases empty : front = []
  · rw [if_pos empty, if_pos (by rw [empty]; rfl)]
  · have size := List.length_pos_iff.mpr empty
    rw [if_neg empty, if_neg (by omega)]

/-- A failed match that runs into a separator leaves the piece open, so that the next one stored
is longer than its front. -/
theorem splitLoop_missed (positive : 0 < substring.length) (first : First substring front)
    (missed : ¬ Resumes substring front) (rest : Bytes)
    (near : start + front.length + substring.length < 2 ^ 32)
    (short : start + front.length + substring.length + rest.length < 2 ^ 64)
    (room : cursor < size) (stores : List Store) :
    ∃ length others, front.length < length ∧
      (splitLoop substring size (front ++ substring ++ rest) start 0 (UInt32.ofNat start) cursor
        stores).2 = stores ++ ⟨cursor.toNat, start, length⟩ :: others := by
  have placed : start < 2 ^ 32 := by omega
  have same : (UInt32.ofNat start).toNat = start := UInt32.toNat_ofNat_of_lt' placed
  obtain ⟨check, moved, inside⟩ := progress_missed positive first missed
  have state : (UInt32.ofNat check).toNat = check :=
    UInt32.toNat_ofNat_of_lt' (by show check < 2 ^ 32; omega)
  have read := splitLoop_progress size (by omega) (front ++ substring) rest start
    (UInt32.ofNat start) cursor stores positive moved
  obtain ⟨length, others, longer, next⟩ := splitLoop_next short rest
    (start + (front ++ substring).length) front.length (UInt32.ofNat check)
    (UInt32.ofNat start) cursor stores (by rw [List.length_append]; omega)
    (by rw [List.length_append, same, state]; omega) room
  refine ⟨length, others, longer, ?_⟩
  rw [show (0 : UInt32) = UInt32.ofNat 0 from rfl, read, next, same]

/-- Stores at the places of u32s are not those of pieces with one at 2^32 or behind. -/
theorem stored_far {stores made : List Store} {others : List Bytes} (entry : Nat)
    (below : ∀ store ∈ made, store.offset < 2 ^ 32) (more : others ≠ [])
    (far : ¬ start + front.length + substring.length < 2 ^ 32) :
    made ≠ stores ++ stored entry (kept substring.length start (front :: others)) := by
  rintro rfl
  obtain ⟨view, member, behind⟩ := kept_last substring.length
    (start + front.length + substring.length) more
  have listed : view ∈ kept substring.length start (front :: others) := by
    rw [kept_cons start front more]
    exact List.mem_append_right _ member
  obtain ⟨store, isStored, offset⟩ := mem_stored listed entry
  have small := below store (List.mem_append_right _ isStored)
  omega

end Separator

/-- The loop stores what is left to cut exactly if the separators left are found.

Induct over the separators. A failed match that runs into one makes the next store longer than
the piece; a start that wraps cannot be the place of the last piece. -/
theorem splitLoop_pieces_iff {total : Nat} (positive : 0 < substring.length)
    (short : total < 2 ^ 64) (rest : Bytes) (start : Nat) (cursor : UInt32) (stores : List Store)
    (whole : start + rest.length = total) (placed : start < 2 ^ 32)
    (before : ∀ store ∈ stores, store.offset < 2 ^ 32)
    (room : cursor.toNat + (kept substring.length start (cut substring rest)).length ≤
      size.toNat) :
    ((splitLoop substring size rest start 0 (UInt32.ofNat start) cursor stores).1.toNat =
        cursor.toNat + (kept substring.length start (cut substring rest)).length ∧
      (splitLoop substring size rest start 0 (UInt32.ofNat start) cursor stores).2 =
        stores ++ stored cursor.toNat (kept substring.length start (cut substring rest))) ↔
      Found substring start (cut substring rest) := by
  induction rest using cut_induction substring positive generalizing start cursor stores with
  | absent rest absent =>
    rw [cut_absent absent] at room ⊢
    have below : cursor < size := by
      rw [UInt32.lt_iff_toNat_lt]
      exact room
    rw [splitLoop_absent size positive absent placed (whole ▸ short)]
    exact iff_of_true ⟨toNat_succ_of_lt below, rfl⟩ trivial
  | found front rest first inductionHypothesis =>
    have nonempty := cut_nonempty substring rest positive
    rw [cut_first positive first, found_cons start front nonempty]
    rw [cut_first positive first, kept_cons start front nonempty] at room
    simp only [List.length_append] at whole
    have position : start + front.length + substring.length + rest.length = total := by omega
    have below : cursor < size := by
      obtain ⟨view, member, _⟩ := kept_last substring.length
        (start + front.length + substring.length) nonempty
      have positive := List.length_pos_of_mem member
      rw [List.length_append] at room
      rw [UInt32.lt_iff_toNat_lt]
      omega
    by_cases near : start + front.length + substring.length < 2 ^ 32
    · by_cases resumes : Resumes substring front
      · rw [kept_cons start front nonempty, splitLoop_found positive resumes rest near below]
        by_cases empty : front = []
        · simp only [empty, ↓reduceIte, List.nil_append] at room near ⊢
          have tail := inductionHypothesis _ cursor stores (by rw [← position, empty]) near before
            room
          refine tail.trans ?_
          simp only [Resumes.empty, near, true_and]
        · have advanced := toNat_succ_of_lt below
          simp only [empty, ↓reduceIte, List.length_append, List.length_singleton] at room ⊢
          have tail := inductionHypothesis _ (cursor + 1)
            (stores ++ [⟨cursor.toNat, start, front.length⟩]) position near ?_ (by omega)
          · rw [advanced, List.append_assoc, Nat.add_assoc cursor.toNat] at tail
            refine tail.trans ?_
            simp only [resumes, near, true_and]
          · intro store member
            rcases List.mem_append.mp member with earlier | last
            · exact before store earlier
            · rw [List.mem_singleton.mp last]
              exact placed
      · obtain ⟨length, others, longer, next⟩ := splitLoop_missed positive first resumes rest near
          (position ▸ short) below stores
        have some : front ≠ [] := by
          rintro rfl
          exact resumes .empty
        refine iff_of_false ?_ (fun found => resumes found.1)
        rintro ⟨_, stores⟩
        rw [next, kept_cons start front nonempty, if_neg some] at stores
        have first := (List.cons.inj (List.append_cancel_left stores)).1
        have lengths := congrArg Store.length first
        simp only at lengths
        omega
    · have below := splitLoop_offset substring size (front ++ substring ++ rest) start 0
        (UInt32.ofNat start) cursor stores before
      refine iff_of_false ?_ (fun found => near found.2.1)
      rintro ⟨_, stores⟩
      exact stored_far cursor.toNat below nonempty near stores

end Loop

/-- For every string, every separator that is not empty and every size with room for the
pieces, a split stores and returns exactly the pieces between the leftmost separators, less the
empty ones in front of a separator, exactly if each piece in front of a separator is made of
stretches, a beginning of the separator and a byte it does not continue with, and no separator
ends at 2^32 or behind. -/
theorem splits_exactly_iff (content substring : Bytes) (size : UInt32) (nonempty : substring ≠ [])
    (short : content.length < 2 ^ 64) (room : (pieces content substring).length ≤ size.toNat) :
    SplitsExactly content substring size ↔ Found substring 0 (cut substring content) := by
  have positive : 0 < substring.length := List.length_pos_iff.mpr nonempty
  have unfolded : splitBySubstring content substring size =
      splitLoop substring size content 0 0 (UInt32.ofNat 0) 0 [] := by
    rw [splitBySubstring, if_neg (Nat.ne_of_gt positive)]
    rfl
  have loop := splitLoop_pieces_iff positive short content 0 0 [] (by simp) (by decide)
    (by simp) (by simpa [pieces] using room)
  rw [← unfolded] at loop
  simp only [UInt32.reduceToNat, Nat.zero_add, List.nil_append] at loop
  rw [← loop]
  constructor
  · exact fun exact => ⟨exact.counted, exact.views⟩
  · rintro ⟨counted, views⟩
    refine ⟨counted, views, ?_⟩
    rw [views]
    intro store isStored
    obtain ⟨view, member, offset, length⟩ := stored_shows isStored
    have shown := kept_shows substring positive content [] view member
    rw [offset, length]
    exact (cut_spec substring positive content).2 _ shown

/-- "a CR b CR LF c" at CR LF: the match that fails at b leaves nothing matched. -/
theorem splits_exactly_iff_lone : SplitsExactly [97, 13, 98, 13, 10, 99] [13, 10] 2 :=
  (splits_exactly_iff [97, 13, 98, 13, 10, 99] [13, 10] 2 (by decide) (by decide)
    (by decide)).mpr
    ⟨(progress_resumes_iff (by decide) [97, 13, 98]).mp (by decide), by decide, trivial⟩

/-- "a CR CR LF b" at CR LF: the match that fails at the second CR runs into the separator. -/
theorem separator_is_missed : ¬ ∀ (content substring : Bytes) (size : UInt32), substring ≠ [] →
    content.length < 2 ^ 64 → (pieces content substring).length ≤ size.toNat →
    SplitsExactly content substring size := by
  intro always
  have exact := always [97, 13, 13, 10, 98] [13, 10] 3 (by decide) (by decide) (by decide)
  exact absurd exact.views (by decide)

end VHttp.Splitting
