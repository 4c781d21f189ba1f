import VHttp.Foundations.Delimiters

/-!
# Pieces between delimiters

A sequence of pieces joined by a delimiter, none of which contains the delimiter's first
symbol, is cut by the one-pass scanner exactly at the delimiters that join it. What is
kept then depends on the pieces alone: the empty ones in front of a delimiter are
dropped, and a delimiter for which there is no room ends the scan.
-/

namespace VHttp.Delimiters

universe u
variable {α : Type u} {size : Nat}

/-- The pieces kept of a sequence of pieces between delimiters, with their offsets. -/
def collect (gap size : Nat) :
    Nat → List α → List (List α) → List (Nat × List α) → List (Nat × List α)
  | start, piece, [], kept => kept ++ [(start, piece)]
  | start, piece, next :: rest, kept =>
    if kept.length < size then
      collect gap size (start + piece.length + gap) next rest
        (if piece ≠ [] then kept ++ [(start, piece)] else kept)
    else kept

/-- Pieces joined by a delimiter. -/
def joined (pattern first : List α) (rest : List (List α)) : List α :=
  first ++ rest.flatMap (pattern ++ ·)

theorem intercalate_eq_joined (pattern first : List α) (rest : List (List α)) :
    pattern.intercalate (first :: rest) = joined pattern first rest := by
  induction rest generalizing first with
  | nil => simp [joined, List.intercalate]
  | cons next rest inductionHypothesis =>
    have tail := inductionHypothesis next
    simp only [joined, List.intercalate, List.intersperse_cons_cons, List.flatten_cons,
      List.flatMap_cons, List.append_assoc] at tail ⊢
    rw [tail]

theorem joined_cons (pattern piece next : List α) (rest : List (List α)) :
    joined pattern piece (next :: rest) = piece ++ pattern ++ joined pattern next rest := by
  simp [joined]

/-- All pieces with their offsets. -/
def placed (gap : Nat) : Nat → List α → List (List α) → List (Nat × List α)
  | start, piece, [] => [(start, piece)]
  | start, piece, next :: rest =>
    (start, piece) :: placed gap (start + piece.length + gap) next rest

/-- Of pieces that are not empty all are kept, also the one behind the last delimiter,
unless there are more delimiters than there is room. -/
theorem collect_nonempty (gap start : Nat) (piece : List α) (rest : List (List α))
    (kept : List (Nat × List α)) (nonempty : ∀ part ∈ piece :: rest, part ≠ [])
    (bounded : kept.length ≤ size) :
    collect gap size start piece rest kept =
      kept ++ (placed gap start piece rest).take
        (if kept.length + rest.length ≤ size then rest.length + 1 else size - kept.length) := by
  induction rest generalizing start piece kept with
  | nil => simp [collect, placed, bounded]
  | cons next rest inductionHypothesis =>
    rw [collect, placed, List.length_cons]
    by_cases room : kept.length < size
    · have tail := inductionHypothesis (start + piece.length + gap) next
        (kept ++ [(start, piece)]) (fun part member => nonempty part (by
          simp [List.mem_cons.mp member])) (by simp; omega)
      rw [if_pos room, if_pos (nonempty piece (by simp)), tail, List.length_append,
        List.length_singleton, List.append_assoc, List.singleton_append]
      congr 1
      by_cases fits : kept.length + 1 + rest.length ≤ size
      · rw [if_pos fits, if_pos (by omega), List.take_succ_cons]
      · obtain ⟨left, isLeft⟩ : ∃ left, size - kept.length = left + 1 :=
          ⟨size - kept.length - 1, by omega⟩
        rw [if_neg fits, if_neg (by omega), isLeft, List.take_succ_cons]
        congr 2
        omega
    · rw [if_neg room, if_neg (by omega)]
      simp [show size - kept.length = 0 by omega]

/-- What the pieces kept contain, with room for so many delimiters. -/
def bounded : Nat → List α → List (List α) → List (List α)
  | _, piece, [] => [piece]
  | 0, _, _ :: _ => []
  | room + 1, piece, next :: rest =>
    if piece ≠ [] then piece :: bounded room next rest else bounded (room + 1) next rest

theorem collect_contents (gap start room : Nat) (piece : List α) (rest : List (List α))
    (kept : List (Nat × List α)) (left : kept.length + room = size) :
    (collect gap size start piece rest kept).map Prod.snd =
      kept.map Prod.snd ++ bounded room piece rest := by
  induction rest generalizing start room piece kept with
  | nil => simp [collect, bounded]
  | cons next rest inductionHypothesis =>
    cases room with
    | zero => rw [collect, if_neg (by omega), bounded, List.append_nil]
    | succ room =>
      rw [collect, if_pos (by omega), bounded]
      by_cases empty : piece = []
      · rw [if_neg (not_not.mpr empty), if_neg (not_not.mpr empty)]
        exact inductionHypothesis _ (room + 1) next kept left
      · rw [if_pos empty, if_pos empty, inductionHypothesis _ room next _ (by simp; omega)]
        simp

/-- An entry names a piece of the whole, which ends at a delimiter or with the whole. -/
def Located (pattern whole : List α) (entry : Nat × List α) : Prop :=
  ∃ front behind, whole = front ++ entry.2 ++ behind ∧ front.length = entry.1 ∧
    (behind = [] ∨ pattern <+: behind)

/-- Every piece kept is where its entry says. -/
theorem collect_located (pattern whole front : List α) (piece : List α) (rest : List (List α))
    (kept : List (Nat × List α)) (split : whole = front ++ joined pattern piece rest)
    (before : ∀ entry ∈ kept, Located pattern whole entry) :
    ∀ entry ∈ collect pattern.length size front.length piece rest kept,
      Located pattern whole entry := by
  induction rest generalizing front piece kept with
  | nil =>
    intro entry member
    rcases List.mem_append.mp member with earlier | last
    · exact before entry earlier
    · rw [List.mem_singleton.mp last]
      exact ⟨front, [], by simpa [joined] using split, rfl, Or.inl rfl⟩
  | cons next rest inductionHypothesis =>
    rw [joined_cons] at split
    have here : Located pattern whole (front.length, piece) :=
      ⟨front, pattern ++ joined pattern next rest, by simpa using split, rfl,
        Or.inr (List.prefix_append _ _)⟩
    have position : front.length + piece.length + pattern.length =
        (front ++ piece ++ pattern).length := by
      simp [Nat.add_assoc]
    rw [collect, position]
    split
    · refine inductionHypothesis (front ++ piece ++ pattern) next _ (by simpa using split) ?_
      intro entry member
      split at member
      · rcases List.mem_append.mp member with earlier | last
        · exact before entry earlier
        · rw [List.mem_singleton.mp last]
          exact here
      · exact before entry member
    · exact before

/-- The pieces that are not empty. -/
def visible (pieces : List (List α)) : List (List α) :=
  pieces.filter (fun part => decide (part ≠ []))

theorem visible_cons (piece : List α) (rest : List (List α)) (nonempty : piece ≠ []) :
    visible (piece :: rest) = piece :: visible rest := by
  simp [visible, nonempty]

theorem visible_append (first second : List (List α)) :
    visible (first ++ second) = visible first ++ visible second := by
  simp [visible]

/-- The scan ends early when, behind the delimiters that it has room for, another one
comes. Otherwise all pieces that are not empty are kept, and the last one. -/
theorem bounded_exact (room : Nat) (piece : List α) (rest : List (List α)) :
    bounded room piece rest =
      if rest ≠ [] ∧ room ≤ (visible (piece :: rest).dropLast.dropLast).length then
        (visible (piece :: rest).dropLast).take room
      else visible (piece :: rest).dropLast ++ [(piece :: rest).getLast (by simp)] := by
  induction rest generalizing room piece with
  | nil => simp [bounded, visible]
  | cons next rest inductionHypothesis =>
    cases room with
    | zero => simp [bounded]
    | succ room =>
      rw [bounded, List.dropLast_cons_cons]
      by_cases empty : piece = []
      · rw [if_neg (not_not.mpr empty), inductionHypothesis (room + 1) next, empty]
        cases rest <;> simp [visible]
      · rw [if_pos empty, inductionHypothesis room next, visible_cons _ _ empty]
        cases rest with
        | nil => simp [visible]
        | cons third rest =>
          simp only [List.dropLast_cons_cons, visible_cons _ _ empty, List.length_cons,
            Nat.succ_le_succ_iff, List.take_succ_cons, ne_eq, reduceCtorEq, not_false_eq_true,
            true_and, List.getLast_cons_cons]
          split <;> rfl

/-- Nothing is missed where no piece contains the delimiter's first symbol.

Induct over the pieces: a piece leaves nothing matched, and the delimiter behind it is
then found. -/
theorem scan_joined [DecidableEq α] (first : α) (others : List α) (piece : List α) (rest : List (List α))
    (start : Nat) (kept : List (Nat × List α)) (absent : ∀ part ∈ piece :: rest, first ∉ part) :
    scan (first :: others) size (joined (first :: others) piece rest) start 0 start
        (kept.map (fun entry => (entry.1, entry.2.length))) =
      (collect (first :: others).length size start piece rest kept).map
        (fun entry => (entry.1, entry.2.length)) := by
  induction rest generalizing start piece kept with
  | nil =>
    have skipped := progress_skip first others piece (absent piece (by simp))
    rw [joined, scan_progress piece _ start 0 start 0 _ skipped]
    simp [scan, collect]
  | cons next rest inductionHypothesis =>
    have skipped := progress_skip first others piece (absent piece (by simp))
    have reading : joined (first :: others) piece (next :: rest) =
        piece ++ ((first :: others) ++ joined (first :: others) next rest) := by
      simp [joined]
    rw [reading, scan_progress piece _ start 0 start 0 _ skipped,
      scan_pattern _ _ _ _ (by simp), collect, List.length_map]
    split
    · have distance : start + piece.length - start = piece.length := by omega
      rw [distance, ← inductionHypothesis next (start + piece.length + (first :: others).length) _
        (fun part member => absent part (by simp [List.mem_cons.mp member]))]
      congr 1
      by_cases empty : piece = [] <;> simp [empty]
    · rfl

/-- No piece of a list split at a symbol contains it. -/
theorem splitOn_absent [DecidableEq α] (separator : α) (whole : List α) :
    ∀ part ∈ whole.splitOn separator, separator ∉ part := by
  induction whole with
  | nil => simp
  | cons symbol rest inductionHypothesis =>
    intro part member
    rw [List.splitOn_cons_eq_if_modifyHead] at member
    split at member
    · rcases List.mem_cons.mp member with rfl | later
      · simp
      · exact inductionHypothesis part later
    · rename_i different
      obtain ⟨first, others, split⟩ := List.exists_cons_of_ne_nil (List.splitOn_ne_nil separator rest)
      rw [split, List.modifyHead_cons] at member
      rcases List.mem_cons.mp member with rfl | later
      · have tail := inductionHypothesis first (by simp [split])
        simp only [beq_iff_eq] at different
        simp [tail, Ne.symm different]
      · exact inductionHypothesis part (by simp [split, later])

/-- A list is the pieces it splits into, joined by the symbol. -/
theorem splitOn_joined [DecidableEq α] (separator : α) (whole : List α) :
    ∃ piece rest, whole.splitOn separator = piece :: rest ∧
      whole = joined [separator] piece rest ∧ ∀ part ∈ piece :: rest, separator ∉ part := by
  obtain ⟨piece, rest, split⟩ := List.exists_cons_of_ne_nil (List.splitOn_ne_nil separator whole)
  have whole_joined : [separator].intercalate (whole.splitOn separator) = whole :=
    List.intercalate_splitOn separator
  rw [split, intercalate_eq_joined] at whole_joined
  exact ⟨piece, rest, split, whole_joined.symm, split ▸ splitOn_absent separator whole⟩

end VHttp.Delimiters
