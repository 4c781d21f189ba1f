import VHttp.HashTableTermination
import VHttp.Parsing

/-!
# Which request lines are accepted

A request line should be accepted when it consists of a method name, a url and HTTP/1.1,
with spaces between them and nowhere else. The parser decides by less: by whether some
tested name begins the first field, by whether the third one begins "HTTP/1.1", and by
whether a fourth entry was stored. OPTIONS is not among the tested names. A line with
fewer than two fields in front of a space leaves the version, and perhaps the url, as the
stack had them.

The condition under which the parser keeps to the rule is stated on the fields of the
line between its spaces. It comes down to lines that follow the rule and are not OPTIONS
requests, and to lines that do not follow it and that the parser refuses.
-/

namespace VHttp.VHttpRequest

open Delimiters VHashTable

/-- The rule for a request line: three tokens, separated by spaces. -/
def WellFormedLine (line : Bytes) : Prop :=
  ∃ (method : VHttpMethod) (name url : Bytes) (first second : Nat),
    httpMethodsStr method = some name ∧ url ≠ [] ∧ 32 ∉ url ∧
    line = name ++ List.replicate (first + 1) 32 ++ url ++ List.replicate (second + 1) 32 ++
      ascii "HTTP/1.1"

/-- The fields of a line that are ended by a space. -/
def spacedFields (line : Bytes) : List Bytes := visible (line.splitOn 32).dropLast

/-- What stands behind the last space of a line. -/
def lastField (line : Bytes) : Bytes := (line.splitOn 32).getLastD []

/-- The field taken for the method. -/
def firstField (line : Bytes) : Bytes := (spacedFields line).headD (lastField line)

/-- The field taken for the version, behind two others. -/
def versionField (line : Bytes) : Bytes := ((spacedFields line).drop 2).headD (lastField line)

/-- Two fields, a third one ended by a space, and a rest without spaces. -/
def EndsBehindThird (line : Bytes) : Prop :=
  ∃ front third last, line.splitOn 32 = front ++ [third, last] ∧ third ≠ [] ∧
    (visible front).length = 2

/-- A field that no tested name begins, or of more than seven bytes. -/
def NoMethod (field : Bytes) : Prop := 7 < field.length ∨ ∀ test ∈ methodTests, ¬ test.1 <+: field

/-- The lines that the parser refuses. -/
def Refused (line : Bytes) : Prop :=
  EndsBehindThird line ∨ NoMethod (firstField line) ∨
    (2 ≤ (spacedFields line).length ∧ ¬ versionField line <+: ascii "HTTP/1.1")

/-- A line splits into what a space ends and what stands behind the last one. -/
theorem splitOn_last (line : Bytes) :
    line.splitOn 32 = (line.splitOn 32).dropLast ++ [lastField line] := by
  obtain ⟨piece, rest, pieces, _⟩ := splitOn_joined 32 line
  rw [lastField, pieces, List.getLastD_cons, ← List.getLast_eq_getLastD (List.cons_ne_nil _ _),
    List.dropLast_concat_getLast]

/-- The fields kept of a line: either a space stands behind the third field's, and the
first three are kept, or all of them and what stands behind the last space. -/
theorem keptFields_cases (line : Bytes) :
    (¬ EndsBehindThird line ∧ 3 ≤ (spacedFields line).length ∧
      keptFields 3 line = (spacedFields line).take 3) ∨
    ((3 ≤ (spacedFields line).length ↔ EndsBehindThird line) ∧
      (spacedFields line).length ≤ 3 ∧
      keptFields 3 line = spacedFields line ++ [lastField line]) := by
  obtain ⟨piece, rest, pieces, _⟩ := splitOn_joined 32 line
  have last : (piece :: rest).getLast (by simp) = lastField line := by
    rw [lastField, pieces, List.getLastD_cons, ← List.getLast_eq_getLastD]
  have spaced : visible (piece :: rest).dropLast = spacedFields line := by rw [spacedFields, pieces]
  have kept := bounded_exact 3 piece rest
  rw [spaced, last] at kept
  have isKept : keptFields 3 line = bounded 3 piece rest := by rw [keptFields, pieces]
  rw [← isKept] at kept
  -- A third field that is ended by the last space follows exactly the pieces in front.
  have thirds : ∀ front third behind, line.splitOn 32 = front ++ [third, behind] →
      (piece :: rest).dropLast = front ++ [third] := by
    intro front third behind split
    rw [← pieces, split]
    simp [List.dropLast_append_of_ne_nil]
  by_cases early : rest ≠ [] ∧ 3 ≤ (visible (piece :: rest).dropLast.dropLast).length
  · rw [if_pos early] at kept
    left
    refine ⟨?_, ?_, kept⟩
    · rintro ⟨front, third, behind, split, _, two⟩
      rw [thirds front third behind split, List.dropLast_concat] at early
      omega
    · have sublist : (visible (piece :: rest).dropLast.dropLast).length ≤
          (visible (piece :: rest).dropLast).length :=
        ((List.dropLast_prefix _).sublist.filter _).length_le
      rw [spaced] at sublist
      omega
  · rw [if_neg early] at kept
    right
    by_cases lone : rest = []
    · have none_spaced : spacedFields line = [] := by rw [← spaced, lone]; rfl
      refine ⟨iff_of_false (by simp [none_spaced]) ?_, by simp [none_spaced], kept⟩
      rintro ⟨front, third, behind, split, _, _⟩
      have sizes := congrArg List.length (pieces.symm.trans split)
      simp [lone] at sizes
    · have few : (visible (piece :: rest).dropLast.dropLast).length < 3 := by
        by_contra many
        exact early ⟨lone, by omega⟩
      have some_spaced : (piece :: rest).dropLast ≠ [] := by
        obtain ⟨next, others, opened⟩ := List.exists_cons_of_ne_nil lone
        simp [opened]
      obtain ⟨front, third, split⟩ : ∃ front third, (piece :: rest).dropLast = front ++ [third] :=
        ⟨_, _, (List.dropLast_concat_getLast some_spaced).symm⟩
      have whole : line.splitOn 32 = front ++ [third, lastField line] := by
        rw [splitOn_last, pieces, split]
        simp
      rw [split, List.dropLast_concat] at few
      have counted : spacedFields line = visible front ++ visible [third] := by
        rw [← spaced, split, visible_append]
      have single : (visible [third]).length = if third ≠ [] then 1 else 0 := by
        by_cases empty : third = [] <;> simp [visible, empty]
      refine ⟨⟨fun three => ?_, ?_⟩, ?_, kept⟩
      · rw [counted, List.length_append, single] at three
        split at three
        · rename_i nonempty
          exact ⟨front, third, lastField line, whole, nonempty, by omega⟩
        · omega
      · rintro ⟨front', third', behind, other, nonempty, two⟩
        have same := (thirds front' third' behind other).symm.trans split
        obtain ⟨rfl, lastSame⟩ := List.append_inj' same rfl
        obtain rfl := (List.singleton_inj.mp lastSame)
        rw [counted, List.length_append, single, if_pos nonempty, two]
      · rw [counted, List.length_append, single]
        split <;> omega

/-- The fields kept of a line, in terms of its fields between spaces. -/
theorem keptFields_exact (line : Bytes) :
    (3 < (keptFields 3 line).length ↔ EndsBehindThird line) ∧
    (keptFields 3 line)[0]? = some (firstField line) ∧
    (3 ≤ (keptFields 3 line).length ↔ 2 ≤ (spacedFields line).length) ∧
    ((keptFields 3 line).length = 3 → (keptFields 3 line)[2]? = some (versionField line)) := by
  unfold firstField versionField
  rcases keptFields_cases line with ⟨notThird, many, kept⟩ | ⟨third, few, kept⟩
  · obtain ⟨first, second, version, others, split⟩ : ∃ first second version others,
        spacedFields line = first :: second :: version :: others := by
      match spacedFields line, many with
      | first :: second :: version :: others, _ => exact ⟨first, second, version, others, rfl⟩
    rw [kept, split]
    simp [notThird]
  · rw [kept, ← third, List.length_append, List.length_singleton]
    match spacedFields line, few with
    | [], _ => simp
    | [first], _ => simp
    | [first, second], _ => simp
    | [first, second, version], _ => simp

section Verdict

variable (fresh : Nat → UInt8) (before line rest : Bytes) (request : VHttpRequest)

end Verdict

/-- What is known of the names of methods. -/
theorem httpMethodsStr_names (method : VHttpMethod) (name : Bytes)
    (named : httpMethodsStr method = some name) :
    name ≠ [] ∧ 32 ∉ name ∧ (name ≠ ascii "OPTIONS" ↔ methodOf name ≠ .error) := by
  cases method <;> simp only [httpMethodsStr, reduceCtorEq, Option.some.injEq] at named <;>
    subst named <;> decide

/-- A line that follows the rule has three fields. -/
theorem WellFormedLine.kept {line : Bytes} (rule : WellFormedLine line) :
    ∃ method name url, httpMethodsStr method = some name ∧ firstField line = name ∧
      keptFields 3 line = [name, url, ascii "HTTP/1.1"] := by
  obtain ⟨method, name, url, first, second, named, nonempty, noSpace, rfl⟩ := rule
  obtain ⟨someName, nameSpace, _⟩ := httpMethodsStr_names method name named
  have kept := keptFields_three name url (ascii "HTTP/1.1") first second ⟨someName, nameSpace⟩
    ⟨nonempty, noSpace⟩ (by decide)
  refine ⟨method, name, url, named, ?_, kept⟩
  have opening := (keptFields_exact (name ++ List.replicate (first + 1) 32 ++ url ++
    List.replicate (second + 1) 32 ++ ascii "HTTP/1.1")).2.1
  rw [kept, List.getElem?_cons_zero, Option.some.injEq] at opening
  exact opening.symm

end VHttp.VHttpRequest
