import VHttp.Foundations.Delimiters

/-!
# Cutting a sequence at the leftmost occurrences of a delimiter

What a one-pass scanner is measured by: a sequence either has no occurrence of a delimiter or
is, in one way only, a front, the delimiter that ends its first occurrence, and a rest. Cutting
takes the front and goes on with the rest.

The scanner sees the first occurrence exactly if nothing is matched when it begins. This is so
if the front consists of stretches, each of them a beginning of the delimiter and a symbol that
the delimiter does not continue with.
-/

namespace VHttp.Delimiters

universe u
variable {α : Type u}

/-- A delimiter behind this front is the first one: it is nowhere before it or across its
beginning. -/
def First (pattern front : List α) : Prop := ¬ pattern <:+: front ++ pattern.dropLast

/-- Stretches that leave nothing matched. -/
inductive Resumes (pattern : List α) : List α → Prop where
  | empty : Resumes pattern []
  | stretch {count : Nat} {symbol : α} {rest : List α} (short : count < pattern.length)
      (differs : pattern[count]? ≠ some symbol) (resumes : Resumes pattern rest) :
      Resumes pattern (pattern.take count ++ symbol :: rest)

section Occurrences

variable {pattern front whole : List α}

/-- Inside a front there is no first occurrence. -/
theorem First.absent (first : First pattern front) : ¬ pattern <:+: front :=
  fun occurs => first (occurs.trans (List.prefix_append _ _).isInfix)

/-- No delimiter begins inside the front of its first occurrence. -/
theorem First.unbegun (positive : 0 < pattern.length) (first : First pattern front)
    {earlier later : List α} (split : front = earlier ++ later) (inside : later ≠ [])
    (rest : List α) : ¬ pattern <+: later ++ (pattern ++ rest) := by
  intro begins
  have room := List.length_pos_iff.mpr inside
  have whole : later ++ (pattern ++ rest) =
      later ++ pattern.dropLast ++ (pattern.drop (pattern.length - 1) ++ rest) := by
    rw [List.dropLast_eq_take, List.append_assoc, ← List.append_assoc (pattern.take _),
      List.take_append_drop]
  rw [whole] at begins
  have within : pattern <+: later ++ pattern.dropLast := by
    refine List.prefix_of_prefix_length_le begins (List.prefix_append _ _) ?_
    rw [List.length_append, List.length_dropLast]
    omega
  refine first ?_
  rw [split, List.append_assoc]
  exact within.isInfix.trans (List.suffix_append _ _).isInfix

/-- No delimiter stands further in front. -/
theorem First.leftmost (positive : 0 < pattern.length) (first : First pattern front)
    {rest earlier later : List α}
    (same : front ++ pattern ++ rest = earlier ++ pattern ++ later) :
    front.length ≤ earlier.length := by
  by_contra sooner
  have begins : earlier <+: front := by
    rw [List.append_assoc, List.append_assoc] at same
    exact List.prefix_of_prefix_length_le ⟨pattern ++ later, same.symm⟩ (List.prefix_append _ _)
      (by omega)
  obtain ⟨behind, split⟩ := begins
  have inside : behind ≠ [] := by
    rintro rfl
    rw [List.append_nil] at split
    exact sooner (Nat.le_of_eq (congrArg List.length split).symm)
  refine first.unbegun positive split.symm inside rest ⟨later, ?_⟩
  rw [← split, List.append_assoc, List.append_assoc, List.append_assoc] at same
  exact (List.append_cancel_left same).symm

/-- A delimiter occurs nowhere, or there is a first occurrence. -/
theorem first_cases (pattern : List α) (positive : 0 < pattern.length) (whole : List α) :
    ¬ pattern <:+: whole ∨ ∃ front rest, whole = front ++ pattern ++ rest ∧ First pattern front := by
  induction whole with
  | nil =>
    refine Or.inl fun occurs => ?_
    have size := occurs.length_le
    rw [List.length_nil] at size
    omega
  | cons symbol whole inductionHypothesis =>
    by_cases begins : pattern <+: symbol :: whole
    · obtain ⟨rest, same⟩ := begins
      refine Or.inr ⟨[], rest, same.symm, fun occurs => ?_⟩
      have size := occurs.length_le
      rw [List.nil_append, List.length_dropLast] at size
      omega
    · rcases inductionHypothesis with absent | ⟨front, rest, rfl, first⟩
      · refine Or.inl fun occurs => ?_
        rcases List.infix_cons_iff.mp occurs with here | later
        · exact begins here
        · exact absent later
      · refine Or.inr ⟨symbol :: front, rest, rfl, fun occurs => ?_⟩
        rcases List.infix_cons_iff.mp occurs with here | later
        · refine begins (here.trans ?_)
          have shorter : front ++ pattern.dropLast <+: front ++ pattern ++ rest := by
            rw [List.append_assoc, List.prefix_append_right_inj]
            exact (List.dropLast_prefix pattern).trans (List.prefix_append _ _)
          exact List.cons_prefix_cons.mpr ⟨rfl, shorter⟩
        · exact first later

/-- What holds of sequences without a delimiter, and of a sequence if it holds of what stands
behind its first delimiter, holds of all. -/
theorem cut_induction {motive : List α → Prop} (pattern : List α) (positive : 0 < pattern.length)
    (absent : ∀ whole, ¬ pattern <:+: whole → motive whole)
    (found : ∀ front rest, First pattern front → motive rest → motive (front ++ pattern ++ rest))
    (whole : List α) : motive whole := by
  induction size : whole.length using Nat.strongRecOn generalizing whole with
  | _ total inductionHypothesis =>
    rcases first_cases pattern positive whole with none | ⟨front, rest, rfl, first⟩
    · exact absent whole none
    · refine found front rest first (inductionHypothesis rest.length ?_ rest rfl)
      rw [← size, List.length_append, List.length_append]
      omega

end Occurrences

/-- The offsets and lengths of the pieces that are not empty, and of the last one. -/
def kept (gap : Nat) : Nat → List (List α) → List (Nat × Nat)
  | _, [] => []
  | start, [piece] => [(start, piece.length)]
  | start, piece :: next :: others =>
    (if piece = [] then [] else [(start, piece.length)]) ++
      kept gap (start + piece.length + gap) (next :: others)

section Kept

variable {gap : Nat}

theorem kept_cons (start : Nat) (piece : List α) {pieces : List (List α)} (more : pieces ≠ []) :
    kept gap start (piece :: pieces) = (if piece = [] then [] else [(start, piece.length)]) ++
      kept gap (start + piece.length + gap) pieces := by
  obtain ⟨next, others, rfl⟩ := List.exists_cons_of_ne_nil more
  rfl

/-- The last piece is always kept, at the start or behind it. -/
theorem kept_last (gap start : Nat) {pieces : List (List α)} (nonempty : pieces ≠ []) :
    ∃ view ∈ kept gap start pieces, start ≤ view.1 := by
  induction pieces generalizing start with
  | nil => exact absurd rfl nonempty
  | cons piece pieces inductionHypothesis =>
    by_cases last : pieces = []
    · rw [last]
      exact ⟨_, List.mem_singleton_self _, Nat.le_refl _⟩
    · obtain ⟨view, member, behind⟩ := inductionHypothesis (start + piece.length + gap) last
      rw [kept_cons start piece last]
      exact ⟨view, List.mem_append_right _ member, by omega⟩

end Kept

variable [DecidableEq α]

/-- The index of the first occurrence. -/
def firstOccurrence (pattern : List α) : List α → Option Nat
  | [] => if pattern = [] then some 0 else none
  | symbol :: rest =>
    if pattern <+: symbol :: rest then some 0 else (firstOccurrence pattern rest).map (· + 1)

/-- Cutting, with the symbols of a delimiter that are still to be skipped, and those of the
piece so far. -/
def cutFrom (pattern : List α) : Nat → List α → List α → List (List α)
  | _, piece, [] => [piece]
  | skip + 1, piece, _ :: rest => cutFrom pattern skip piece rest
  | 0, piece, symbol :: rest =>
    if pattern <+: symbol :: rest then piece :: cutFrom pattern (pattern.length - 1) [] rest
    else cutFrom pattern 0 (piece ++ [symbol]) rest

/-- The pieces between the leftmost occurrences of a delimiter that do not overlap. -/
def cut (pattern whole : List α) : List (List α) := cutFrom pattern 0 [] whole

section Cut

variable {pattern front whole : List α}

theorem firstOccurrence_absent (absent : ¬ pattern <:+: whole) :
    firstOccurrence pattern whole = none := by
  induction whole with
  | nil =>
    have nonempty : pattern ≠ [] := by
      rintro rfl
      exact absent List.infix_rfl
    exact if_neg nonempty
  | cons symbol whole inductionHypothesis =>
    have later : ¬ pattern <:+: whole := fun occurs => absent (List.infix_cons_iff.mpr (Or.inr occurs))
    rw [firstOccurrence, if_neg (fun begins => absent begins.isInfix), inductionHypothesis later]
    rfl

theorem firstOccurrence_first (positive : 0 < pattern.length) (first : First pattern front)
    (rest : List α) : firstOccurrence pattern (front ++ pattern ++ rest) = some front.length := by
  have found : ∀ later earlier, front = earlier ++ later →
      firstOccurrence pattern (later ++ (pattern ++ rest)) = some later.length := by
    intro later
    induction later with
    | nil =>
      intro earlier _
      obtain ⟨symbol, others, rfl⟩ := List.exists_cons_of_length_pos positive
      exact if_pos (List.prefix_append _ _)
    | cons symbol later inductionHypothesis =>
      intro earlier split
      have unbegun := first.unbegun positive split (List.cons_ne_nil _ _) rest
      rw [List.cons_append] at unbegun ⊢
      rw [firstOccurrence, if_neg unbegun,
        inductionHypothesis (earlier ++ [symbol]) (by rw [split]; simp)]
      rfl
  rw [List.append_assoc]
  exact found front [] rfl

/-- The rest of a delimiter is skipped. -/
theorem cutFrom_skip (piece seen rest : List α) :
    cutFrom pattern seen.length piece (seen ++ rest) = cutFrom pattern 0 piece rest := by
  induction seen with
  | nil => rfl
  | cons symbol seen inductionHypothesis => exact inductionHypothesis

/-- Symbols at which no delimiter begins belong to the piece. -/
theorem cutFrom_advance (piece front rest : List α)
    (unbegun : ∀ earlier later, front = earlier ++ later → later ≠ [] →
      ¬ pattern <+: later ++ rest) :
    cutFrom pattern 0 piece (front ++ rest) = cutFrom pattern 0 (piece ++ front) rest := by
  induction front generalizing piece with
  | nil => rw [List.nil_append, List.append_nil]
  | cons symbol front inductionHypothesis =>
    have here := unbegun [] (symbol :: front) rfl (List.cons_ne_nil _ _)
    rw [List.cons_append] at here ⊢
    rw [cutFrom, if_neg here, inductionHypothesis (piece ++ [symbol]) (fun earlier later split =>
      unbegun (symbol :: earlier) later (by rw [split]; rfl)), List.append_assoc]
    rfl

theorem cut_absent (absent : ¬ pattern <:+: whole) : cut pattern whole = [whole] := by
  have advanced := cutFrom_advance [] whole [] (fun earlier later split _ begins => absent (by
    rw [List.append_nil] at begins
    exact split ▸ begins.isInfix.trans (List.suffix_append _ _).isInfix))
  rw [List.append_nil] at advanced
  rw [cut, advanced]
  rfl

theorem cut_first (positive : 0 < pattern.length) (first : First pattern front) (rest : List α) :
    cut pattern (front ++ pattern ++ rest) = front :: cut pattern rest := by
  have advanced := cutFrom_advance [] front (pattern ++ rest)
    (fun earlier later split inside => first.unbegun positive split inside rest)
  rw [cut, List.append_assoc, advanced, List.nil_append]
  obtain ⟨symbol, others, rfl⟩ := List.exists_cons_of_length_pos positive
  rw [List.cons_append, cutFrom, if_pos (by exact List.prefix_append _ _), List.length_cons,
    Nat.add_sub_cancel, cutFrom_skip]
  rfl

theorem cut_nonempty (pattern whole : List α) (positive : 0 < pattern.length) :
    cut pattern whole ≠ [] := by
  rcases first_cases pattern positive whole with absent | ⟨front, rest, rfl, first⟩
  · rw [cut_absent absent]
    exact List.cons_ne_nil _ _
  · rw [cut_first positive first]
    exact List.cons_ne_nil _ _

/-- The pieces make up the whole with delimiters between them, and have none in them. -/
theorem cut_spec (pattern : List α) (positive : 0 < pattern.length) (whole : List α) :
    pattern.intercalate (cut pattern whole) = whole ∧
      ∀ piece ∈ cut pattern whole, ¬ pattern <:+: piece := by
  induction whole using cut_induction pattern positive with
  | absent whole absent =>
    rw [cut_absent absent]
    exact ⟨by simp [List.intercalate], fun piece member => List.mem_singleton.mp member ▸ absent⟩
  | found front rest first inductionHypothesis =>
    obtain ⟨whole, absent⟩ := inductionHypothesis
    obtain ⟨next, others, same⟩ := List.exists_cons_of_ne_nil (cut_nonempty pattern rest positive)
    rw [cut_first positive first]
    rw [same] at whole absent ⊢
    constructor
    · simp only [List.intercalate, List.intersperse_cons_cons, List.flatten_cons] at whole ⊢
      rw [whole, List.append_assoc]
    · intro piece member
      rcases List.mem_cons.mp member with rfl | later
      · exact first.absent
      · exact absent piece later

end Cut
section Scanner

variable {pattern front : List α}

/-- The beginning of the delimiter is matched symbol by symbol. -/
theorem progress_take {count : Nat} (short : count < pattern.length) :
    progress pattern (pattern.take count) 0 = some count := by
  induction count with
  | zero => rfl
  | succ count inductionHypothesis =>
    have expected : pattern[count]? = some pattern[count] :=
      List.getElem?_eq_getElem (Nat.lt_of_succ_lt short)
    have incomplete : ¬ count + 1 = pattern.length := Nat.ne_of_lt short
    rw [List.take_add_one, expected, Option.toList_some, progress_append,
      inductionHypothesis (Nat.lt_of_succ_lt short), Option.bind_some, progress, if_pos expected,
      if_neg incomplete]
    rfl

theorem progress_dropLast (positive : 0 < pattern.length) :
    progress pattern pattern.dropLast 0 = some (pattern.length - 1) := by
  rw [List.dropLast_eq_take]
  exact progress_take (Nat.sub_lt positive Nat.one_pos)

/-- Symbols leave nothing matched exactly if they are made of stretches. -/
theorem progress_resumes_iff (positive : 0 < pattern.length) (seen : List α) :
    progress pattern seen 0 = some 0 ↔ Resumes pattern seen := by
  constructor
  · have behind : ∀ seen check, check < pattern.length →
        progress pattern seen check = some 0 → Resumes pattern (pattern.take check ++ seen) := by
      intro seen
      induction seen with
      | nil =>
        intro check _ moved
        obtain rfl : check = 0 := Option.some.inj moved
        exact .empty
      | cons symbol seen inductionHypothesis =>
        intro check short moved
        rw [progress] at moved
        split at moved
        · rename_i equal
          split at moved
          · simp at moved
          · have longer := inductionHypothesis (check + 1) (by omega) moved
            rwa [List.take_add_one, equal, Option.toList_some, List.append_assoc] at longer
        · rename_i differs
          exact .stretch short differs (inductionHypothesis 0 positive moved)
    exact behind seen 0 positive
  · intro resumes
    induction resumes with
    | empty => rfl
    | stretch short differs _ inductionHypothesis =>
      rw [progress_append, progress_take short, Option.bind_some, progress, if_neg differs]
      exact inductionHypothesis

/-- From a state on, the symbols matched are all that are read since, or fewer than these. -/
theorem progress_reach {seen : List α} {check after : Nat}
    (moved : progress pattern seen check = some after) :
    after = check + seen.length ∨ after < seen.length := by
  induction seen generalizing check with
  | nil => exact Or.inl (Option.some.inj moved).symm
  | cons symbol seen inductionHypothesis =>
    rw [progress] at moved
    rw [List.length_cons]
    split at moved
    · split at moved
      · simp at moved
      · rcases inductionHypothesis moved with all | fewer <;> omega
    · rcases inductionHypothesis moved with all | fewer <;> omega

/-- With anything matched when it begins, a first occurrence is not found. -/
theorem progress_missed (positive : 0 < pattern.length) (first : First pattern front)
    (missed : ¬ Resumes pattern front) :
    ∃ check, progress pattern (front ++ pattern) 0 = some check ∧ check < pattern.length := by
  rw [← progress_resumes_iff positive] at missed
  obtain ⟨check, moved⟩ := progress_of_absent positive front first.absent
  obtain ⟨after, further⟩ := progress_of_absent positive _ first
  have short := ((progress_spec positive _).1 after further).1
  have whole := further
  rw [progress_append, moved, Option.bind_some] at whole
  have nonzero : check ≠ 0 := fun zero => missed (zero ▸ moved)
  have reach := progress_reach whole
  rw [List.length_dropLast] at reach
  have last : front ++ pattern = front ++ pattern.dropLast ++
      [pattern.getLast (List.length_pos_iff.mp positive)] := by
    rw [List.append_assoc, List.dropLast_concat_getLast]
  have incomplete : ¬ after + 1 = pattern.length := by omega
  rw [last, progress_append, further, Option.bind_some]
  simp only [progress, incomplete, ↓reduceIte]
  split
  · exact ⟨after + 1, rfl, by omega⟩
  · exact ⟨0, rfl, positive⟩

end Scanner

/-- A view that is kept shows a piece. -/
theorem kept_shows (pattern : List α) (positive : 0 < pattern.length) (whole before : List α) :
    ∀ view ∈ kept pattern.length before.length (cut pattern whole),
      ((before ++ whole).drop view.1).take view.2 ∈ cut pattern whole := by
  induction whole using cut_induction pattern positive generalizing before with
  | absent whole absent =>
    rw [cut_absent absent]
    intro view member
    rw [List.mem_singleton.mp member, List.drop_left, List.take_length]
    exact List.mem_singleton_self _
  | found front rest first inductionHypothesis =>
    have later := inductionHypothesis (before ++ front ++ pattern)
    rw [cut_first positive first, kept_cons _ _ (cut_nonempty pattern rest positive)]
    rw [List.length_append, List.length_append] at later
    intro view member
    rcases List.mem_append.mp member with here | behind
    · by_cases empty : front = []
      · rw [if_pos empty] at here
        cases here
      · rw [if_neg empty] at here
        rw [List.mem_singleton.mp here, List.drop_left, List.append_assoc, List.take_left]
        exact List.mem_cons_self
    · have shown := later view behind
      simp only [List.append_assoc] at shown ⊢
      exact List.mem_cons_of_mem _ shown

end VHttp.Delimiters
