import VHttp.StringEdits

/-!
# The two copies of a string

`VString_Copy` and `VString_CopyCString` both clear the bytes in use. The first one then
writes from the front on, the second one appends, so that its bytes come behind as many zeros
as the string had bytes, and the length it sets cuts the last of them off. They agree on a
string that is empty, and on a source that is.
-/

namespace VHttp.VString

/-- What a copy of a C string owes: the bytes of the source, as the copy of a string that
holds them leaves them. The two may find different bytes in what they reallocate. -/
def CopiesAgree (dest src : VString) (source : CString) (fresh other : Nat → UInt8) : Prop :=
  ∃ copied twin, dest.copyCString fresh source.1 = some copied ∧ dest.copy other src = some twin ∧
    copied.content = source.1 ∧ copied.length = source.1.length ∧
    copied.content = twin.content ∧ copied.length = twin.length

/-- Behind some zeros a source without NUL loses its place, unless there are none of them or
nothing of it. -/
theorem zeros_taken_iff {source : Bytes} (clean : 0 ∉ source) (count : Nat) :
    (List.replicate count 0 ++ source).take source.length = source ↔ count = 0 ∨ source = [] := by
  cases count with
  | zero => simp
  | succ count =>
    cases source with
    | nil => simp
    | cons byte rest =>
      have visible : (0 : UInt8) ≠ byte := fun same => clean (by simp [same])
      simp [List.replicate_succ, visible]

/-- For every string in a valid state and every C string the two copies leave the same bytes
and the same length, those of the C string, exactly if the string or the C string is empty. -/
theorem copies_agree_iff {dest src : VString} (valid : dest.Valid) (source : CString)
    (fits : src.length ≤ src.capacity) (holds : src.content = source.1) (fresh other : Nat → UInt8) :
    CopiesAgree dest src source fresh other ↔ dest.length = 0 ∨ source.1 = [] := by
  obtain ⟨copied, isCopied, still, contents⟩ := valid.copyCString_exact fresh source.1
  obtain ⟨twin, isTwin, twinValid, twinContents⟩ := valid.copy other src fits
  rw [← zeros_taken_iff source.2 dest.length, ← contents]
  constructor
  · rintro ⟨first, _, isFirst, _, exactly, _⟩
    obtain rfl := Option.some.inj (isFirst.symm.trans isCopied)
    exact exactly
  · intro exactly
    have same : copied.content = twin.content := by rw [exactly, twinContents, holds]
    refine ⟨copied, twin, isCopied, isTwin, exactly, ?_, same, ?_⟩
    · rw [← still.content_length, exactly]
    · rw [← still.content_length, same, twinContents, ← twinValid.content_length, twinContents]

/-- "GET" copied into a new string. -/
theorem copies_agree_iff_method : CopiesAgree init ⟨[71, 69, 84], 3⟩ ⟨[71, 69, 84], by decide⟩
    (fun _ => 7) (fun _ => 9) :=
  (copies_agree_iff init_valid ⟨[71, 69, 84], by decide⟩ (by decide) rfl _ _).mpr (Or.inl rfl)

/-- A copy over a string that is in use leaves zeros. -/
theorem copy_over_method_is_lost : ¬ ∀ (dest src : VString) (source : CString)
    (fresh other : Nat → UInt8), dest.Valid → src.length ≤ src.capacity →
    src.content = source.1 → CopiesAgree dest src source fresh other := by
  intro always
  obtain ⟨copied, _, isCopied, _, contents, _⟩ := always ⟨[71, 69, 84, 0, 0, 0, 0, 0], 3⟩
    ⟨[71, 69, 84], 3⟩ ⟨[71, 69, 84], by decide⟩ (fun _ => 0) (fun _ => 0) ⟨by decide, by decide⟩
    (by decide) rfl
  have erased : copyCString (fun _ => 0) ⟨[71, 69, 84, 0, 0, 0, 0, 0], 3⟩ [71, 69, 84] =
      some ⟨[0, 0, 0, 71, 69, 84, 0, 0], 3⟩ := by decide
  rw [Option.some.inj (isCopied.symm.trans erased)] at contents
  exact absurd contents (by decide)

end VHttp.VString
