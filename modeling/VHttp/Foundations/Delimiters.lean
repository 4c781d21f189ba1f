import Mathlib.Data.List.Induction

/-!
# Cutting a sequence at a delimiter in one pass

The scanner compares each symbol with the next expected symbol of a delimiter.
After a mismatch it starts over with the following symbol, without going back to
the symbols it has read: an occurrence of the delimiter that begins inside a failed
match, or with the symbol that ended it, may be missed. A delimiter that is found
ends a piece. Empty pieces are dropped, and no more than a given number of pieces
is kept, except that what stands behind the last delimiter found is always kept.

What is found is there: while no delimiter has been found, the symbols matched so far
are the last ones read. And with nothing matched, a delimiter that comes next is found.
-/

namespace VHttp.Delimiters

universe u
variable {α : Type u} [DecidableEq α]

/-- The scanner, from an index on: the symbols left to read, the number of
delimiter symbols matched, the start of the current piece, and the offsets and
lengths of the pieces kept. -/
def scan (pattern : List α) (size : Nat) :
    List α → Nat → Nat → Nat → List (Nat × Nat) → List (Nat × Nat)
  | [], index, _, start, kept => kept ++ [(start, index - start)]
  | symbol :: rest, index, check, start, kept =>
    if pattern[check]? = some symbol then
      if check + 1 = pattern.length then
        if kept.length < size then
          let length := index + 1 - pattern.length - start
          let kept := if length ≠ 0 then kept ++ [(start, length)] else kept
          scan pattern size rest (index + 1) 0 (index + 1) kept
        else kept
      else scan pattern size rest (index + 1) (check + 1) start kept
    else scan pattern size rest (index + 1) 0 start kept

/-- The delimiter symbols matched after reading some symbols, as long as no
delimiter is found in them. -/
def progress (pattern : List α) : List α → Nat → Option Nat
  | [], check => some check
  | symbol :: rest, check =>
    if pattern[check]? = some symbol then
      if check + 1 = pattern.length then none else progress pattern rest (check + 1)
    else progress pattern rest 0

variable {pattern : List α} {size : Nat}

theorem progress_append (first second : List α) (check : Nat) :
    progress pattern (first ++ second) check =
      (progress pattern first check).bind (progress pattern second) := by
  induction first generalizing check with
  | nil => rfl
  | cons symbol rest inductionHypothesis =>
    simp only [List.cons_append, progress]
    split
    · split
      · rfl
      · exact inductionHypothesis (check + 1)
    · exact inductionHypothesis 0

/-- Symbols in which no delimiter is found only move the scanner on. -/
theorem scan_progress (seen rest : List α) (index check start after : Nat)
    (kept : List (Nat × Nat)) (moved : progress pattern seen check = some after) :
    scan pattern size (seen ++ rest) index check start kept =
      scan pattern size rest (index + seen.length) after start kept := by
  induction seen generalizing index check with
  | nil =>
    have same : check = after := Option.some.inj moved
    subst after
    rfl
  | cons symbol remaining inductionHypothesis =>
    have position : index + 1 + remaining.length = index + (symbol :: remaining).length := by
      rw [List.length_cons]
      omega
    simp only [progress] at moved
    simp only [List.cons_append, scan]
    split at moved
    · rename_i equal
      split at moved
      · simp at moved
      · rename_i incomplete
        rw [if_pos equal, if_neg incomplete, inductionHypothesis _ _ moved, position]
    · rename_i different
      rw [if_neg different, inductionHypothesis _ _ moved, position]

/-- The pieces kept stay kept. -/
theorem scan_keeps (rest : List α) (index check start : Nat) (kept : List (Nat × Nat)) :
    kept <+: scan pattern size rest index check start kept := by
  induction rest generalizing index check start kept with
  | nil => exact List.prefix_append _ _
  | cons symbol rest inductionHypothesis =>
    simp only [scan]
    split
    · split
      · split
        · refine List.IsPrefix.trans ?_ (inductionHypothesis _ _ _ _)
          split
          · exact List.prefix_append _ _
          · exact List.prefix_refl _
        · exact List.prefix_refl _
      · exact inductionHypothesis _ _ _ _
    · exact inductionHypothesis _ _ _ _

/-- The pieces kept lie inside what has been read. -/
theorem scan_inside (rest : List α) (index check start : Nat) (kept : List (Nat × Nat))
    (begun : start ≤ index) (before : ∀ piece ∈ kept, piece.1 + piece.2 ≤ index) :
    ∀ piece ∈ scan pattern size rest index check start kept,
      piece.1 + piece.2 ≤ index + rest.length := by
  induction rest generalizing index check start kept with
  | nil =>
    intro piece member
    rcases List.mem_append.mp member with earlier | last
    · exact before piece earlier
    · rw [List.mem_singleton.mp last, List.length_nil]
      omega
  | cons symbol rest inductionHypothesis =>
    have position : index + 1 + rest.length = index + (symbol :: rest).length := by
      rw [List.length_cons]
      omega
    have onward : ∀ piece ∈ kept, piece.1 + piece.2 ≤ index + 1 :=
      fun piece member => Nat.le_succ_of_le (before piece member)
    rw [← position]
    simp only [scan]
    split
    · split
      · split
        · refine inductionHypothesis (index + 1) 0 (index + 1) _ (Nat.le_refl _) ?_
          intro piece member
          split at member
          · rcases List.mem_append.mp member with earlier | last
            · exact onward piece earlier
            · rw [List.mem_singleton.mp last]
              omega
          · exact onward piece member
        · exact fun piece member => Nat.le_add_right_of_le (onward piece member)
      · exact inductionHypothesis (index + 1) (check + 1) start kept (by omega) onward
    · exact inductionHypothesis (index + 1) 0 start kept (by omega) onward

/-- Behind the first piece kept, every piece begins with something and a delimiter in front. -/
theorem scan_later (rest : List α) (index check start : Nat) (kept : List (Nat × Nat))
    (begun : start ≤ index) (far : kept ≠ [] → pattern.length < start)
    (later : ∀ piece ∈ kept.tail, pattern.length < piece.1) :
    ∀ piece ∈ (scan pattern size rest index check start kept).tail, pattern.length < piece.1 := by
  have stored : ∀ start (kept : List (Nat × Nat)) length, (kept ≠ [] → pattern.length < start) →
      (∀ piece ∈ kept.tail, pattern.length < piece.1) →
      ∀ piece ∈ (kept ++ [(start, length)]).tail, pattern.length < piece.1 := by
    intro start kept length far later piece member
    cases kept with
    | nil => cases member
    | cons first others =>
      rcases List.mem_append.mp member with earlier | last
      · exact later piece earlier
      · rw [List.mem_singleton.mp last]
        exact far (List.cons_ne_nil _ _)
  induction rest generalizing index check start kept with
  | nil => exact stored start kept _ far later
  | cons symbol rest inductionHypothesis =>
    have onward := fun check => inductionHypothesis (index + 1) check start kept (by omega) far later
    simp only [scan]
    split
    · split
      · split
        · split
          · exact inductionHypothesis _ _ _ _ (Nat.le_refl _) (by omega)
              (stored start kept _ far later)
          · refine inductionHypothesis _ _ _ _ (Nat.le_refl _) (fun some => ?_) later
            exact Nat.lt_succ_of_lt (Nat.lt_of_lt_of_le (far some) begun)
        · exact later
      · exact onward _
    · exact onward _

/-- What is matched is there: the matched symbols of the delimiter are the last ones
read, and a delimiter that is found is an occurrence. -/
theorem progress_spec (positive : 0 < pattern.length) (seen : List α) :
    (∀ check, progress pattern seen 0 = some check →
      check < pattern.length ∧ pattern.take check <:+ seen) ∧
    (progress pattern seen 0 = none → pattern <:+: seen) := by
  induction seen using List.reverseRecOn with
  | nil =>
    refine ⟨fun check moved => ?_, fun found => by simp [progress] at found⟩
    have same : 0 = check := Option.some.inj moved
    subst check
    exact ⟨positive, by simp⟩
  | append_singleton seen symbol inductionHypothesis =>
    obtain ⟨matched, found⟩ := inductionHypothesis
    rw [progress_append]
    cases before : progress pattern seen 0 with
    | none => exact ⟨fun _ moved => by simp at moved,
        fun _ => List.IsInfix.trans (found before) (List.prefix_append _ _).isInfix⟩
    | some check =>
      obtain ⟨short, suffix⟩ := matched check before
      have longer : pattern[check]? = some symbol →
          pattern.take (check + 1) <:+ seen ++ [symbol] := by
        intro equal
        rw [List.take_add_one, equal, Option.toList_some]
        exact (List.suffix_concat_iff).mpr (Or.inr ⟨_, rfl, suffix⟩)
      simp only [Option.bind_some, progress]
      split
      · rename_i equal
        split
        · rename_i complete
          refine ⟨fun _ moved => by simp at moved, fun _ => ?_⟩
          have whole := longer equal
          rw [complete, List.take_length] at whole
          exact whole.isInfix
        · refine ⟨fun next moved => ?_, fun found => by simp at found⟩
          have same : check + 1 = next := Option.some.inj moved
          subst next
          exact ⟨by omega, longer equal⟩
      · refine ⟨fun next moved => ?_, fun found => by simp at found⟩
        have same : 0 = next := Option.some.inj moved
        subst next
        exact ⟨positive, by simp⟩

/-- In symbols without an occurrence no delimiter is found. -/
theorem progress_of_absent (positive : 0 < pattern.length) (seen : List α)
    (absent : ¬ pattern <:+: seen) : ∃ check, progress pattern seen 0 = some check := by
  cases moved : progress pattern seen 0 with
  | none => exact absurd ((progress_spec positive seen).2 moved) absent
  | some check => exact ⟨check, rfl⟩

/-- Symbols other than the first one of the delimiter leave nothing matched. -/
theorem progress_skip (first : α) (others seen : List α) (absent : first ∉ seen) :
    progress (first :: others) seen 0 = some 0 := by
  induction seen with
  | nil => rfl
  | cons symbol rest inductionHypothesis =>
    simp only [List.mem_cons, not_or] at absent
    simp only [progress, List.getElem?_cons_zero, Option.some.injEq, absent.1, ↓reduceIte]
    exact inductionHypothesis absent.2

/-- With nothing matched, the scanner finds a delimiter that comes next, while there
is room. -/
theorem scan_pattern (rest : List α) (index start : Nat) (kept : List (Nat × Nat))
    (positive : 0 < pattern.length) :
    scan pattern size (pattern ++ rest) index 0 start kept =
      if kept.length < size then
        scan pattern size rest (index + pattern.length) 0 (index + pattern.length)
          (if index - start ≠ 0 then kept ++ [(start, index - start)] else kept)
      else kept := by
  obtain ⟨opening, last, same⟩ : ∃ opening last, pattern = opening ++ [last] :=
    ⟨_, _, (List.dropLast_concat_getLast (List.length_pos_iff.mp positive)).symm⟩
  have length : opening.length + 1 = pattern.length := by simp [same]
  -- All but the last symbol of the delimiter are matched one after another.
  have matched : ∀ later earlier, earlier ++ later = opening →
      progress pattern later earlier.length = some opening.length := by
    intro later
    induction later with
    | nil => intro earlier split; simp [progress, ← split]
    | cons symbol rest inductionHypothesis =>
      intro earlier split
      have expected : pattern[earlier.length]? = some symbol := by
        simp [same, ← split]
      have incomplete : ¬ earlier.length + 1 = pattern.length := by
        rw [← length, ← split]
        simp
      rw [progress, if_pos expected, if_neg incomplete]
      simpa using inductionHypothesis (earlier ++ [symbol]) (by simpa using split)
  have final : pattern[opening.length]? = some last := by simp [same]
  have reading : pattern ++ rest = opening ++ last :: rest := by simp [same]
  have behind : index + opening.length + 1 = index + pattern.length := by omega
  rw [reading, scan_progress opening _ index 0 start opening.length kept
    (matched opening [] rfl), scan, if_pos final, if_pos length]
  simp only [behind, Nat.add_sub_cancel]

omit [DecidableEq α] in
/-- Behind a delimiter, delimiters only make delimiters only. -/
theorem delimiters_cons (pattern behind : List α) (positive : 0 < pattern.length) :
    (∃ count, behind = (List.replicate count pattern).flatten) ↔
      ∃ count, pattern ++ behind = (List.replicate count pattern).flatten := by
  constructor
  · rintro ⟨count, rfl⟩
    exact ⟨count + 1, by simp [List.replicate_succ]⟩
  · rintro ⟨count, same⟩
    cases count with
    | zero =>
      have empty : pattern = [] := (List.append_eq_nil_iff.mp same).1
      exact absurd empty (List.length_pos_iff.mp positive)
    | succ count => exact ⟨count, by simpa [List.replicate_succ] using same⟩

end VHttp.Delimiters
