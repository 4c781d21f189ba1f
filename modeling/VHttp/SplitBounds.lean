import VHttp.StringViews

/-!
# The entries that a split stores

`VString_SplitBySubstring` with its variables at their widths: `ResultCursor`, `Check` and
`Start` are u32, the index and the lengths are 64 bits wide. The result array is the
caller's, so what happens to it is the sequence of stores into it. A piece is given by its
offset in the string and its length.

The size of the array is looked at where a separator is found, not where the last piece is
stored. If the pieces stored fill the array and no separator follows, the last piece goes
behind its end.
-/

namespace VHttp.Splitting

open Delimiters

/-- A store of a view into an entry of the result array. -/
structure Store where
  entry : Nat
  offset : Nat
  length : Nat
  deriving DecidableEq

/-- `Len`: the bytes between the start of the piece and the separator that ends at an index. -/
def pieceLength (substring : Bytes) (index : Nat) (start : UInt32) : UInt64 :=
  UInt64.ofNat (index + 1) - UInt64.ofNat substring.length - start.toUInt64

/-- The loop of `VString_SplitBySubstring` over the bytes left to read, and the store behind
it: `I`, `Check`, `Start`, `ResultCursor`, and the stores made so far. -/
def splitLoop (substring : Bytes) (size : UInt32) :
    Bytes → Nat → UInt32 → UInt32 → UInt32 → List Store → UInt32 × List Store
  | [], index, _, start, cursor, stores =>
    (cursor + 1, stores ++
      [⟨cursor.toNat, start.toNat, (UInt64.ofNat index - start.toUInt64).toNat⟩])
  | byte :: rest, index, check, start, cursor, stores =>
    if substring[check.toNat]? = some byte then
      if substring.length = (check + 1).toNat then
        if cursor < size then
          let length := pieceLength substring index start
          if length ≠ 0 then
            splitLoop substring size rest (index + 1) 0 (UInt32.ofNat (index + 1)) (cursor + 1)
              (stores ++ [⟨cursor.toNat, start.toNat, length.toNat⟩])
          else splitLoop substring size rest (index + 1) 0 (UInt32.ofNat (index + 1)) cursor stores
        else (cursor, stores)
      else splitLoop substring size rest (index + 1) (check + 1) start cursor stores
    else splitLoop substring size rest (index + 1) 0 start cursor stores

/-- `VString_SplitBySubstring`: the count that it returns and the stores that it makes. -/
def splitBySubstring (content substring : Bytes) (size : UInt32) : UInt32 × List Store :=
  if substring.length = 0 then (0, []) else splitLoop substring size content 0 0 0 0 []

/-- What the caller of a split relies on: only entries of the array are stored, from the
first one on and as many as are returned, and every view lies inside the string. -/
structure SplitSafe (total : Nat) (size : UInt32) (result : UInt32 × List Store) : Prop where
  below : ∀ store ∈ result.2, store.entry < size.toNat
  counted : result.2.map Store.entry = List.range result.1.toNat
  bounded : result.1.toNat ≤ size.toNat
  inside : ∀ store ∈ result.2, store.offset + store.length ≤ total

/-- The lengths of the pieces in front of the separators that one pass over the string finds,
in order and empty ones included, however many entries there are. -/
def cuts (substring : Bytes) : Bytes → Nat → UInt32 → UInt32 → List UInt64
  | [], _, _, _ => []
  | byte :: rest, index, check, start =>
    if substring[check.toNat]? = some byte then
      if substring.length = (check + 1).toNat then
        pieceLength substring index start ::
          cuts substring rest (index + 1) 0 (UInt32.ofNat (index + 1))
      else cuts substring rest (index + 1) (check + 1) start
    else cuts substring rest (index + 1) 0 start

/-- The pieces that are not empty fill the room exactly, and the last one is not empty. -/
def Overruns (pieces : List UInt64) (room : Nat) : Prop :=
  pieces.countP (fun length => decide (length ≠ 0)) = room ∧ pieces.getLast? ≠ some 0

instance (pieces : List UInt64) (room : Nat) : Decidable (Overruns pieces room) :=
  inferInstanceAs (Decidable (_ ∧ _))

theorem overruns_nil (room : Nat) : Overruns [] room ↔ room = 0 := by
  simp [Overruns, eq_comm]

/-- A piece that is stored takes one entry. -/
theorem overruns_stored {length : UInt64} (pieces : List UInt64) (room : Nat)
    (nonempty : length ≠ 0) :
    Overruns (length :: pieces) (room + 1) ↔ Overruns pieces room := by
  cases pieces with
  | nil => simp [Overruns, nonempty, eq_comm]
  | cons next others => simp [Overruns, List.countP_cons_of_pos, nonempty]

/-- An empty piece takes none, but a separator has been found with room to spare. -/
theorem overruns_dropped (pieces : List UInt64) (room : Nat) :
    Overruns (0 :: pieces) (room + 1) ↔ Overruns pieces (room + 1) := by
  cases pieces with
  | nil => simp [Overruns]
  | cons next others => simp [Overruns]

/-- With the array full, another separator ends the split. -/
theorem not_overruns_full (length : UInt64) (pieces : List UInt64) :
    ¬ Overruns (length :: pieces) 0 := by
  rintro ⟨full, last⟩
  have all : ∀ piece ∈ length :: pieces, piece = 0 := by
    simpa [List.countP_eq_zero] using full
  obtain ⟨final, isLast⟩ : ∃ final, (length :: pieces).getLast? = some final :=
    ⟨_, List.getLast?_cons⟩
  exact last (by rw [isLast, all final (List.mem_of_getLast? isLast)])

/-- A piece ends where its separator begins. -/
theorem pieceLength_toNat {substring : Bytes} {index : Nat} {start : UInt32}
    (located : start.toNat + substring.length ≤ index + 1) (short : index + 1 < 2 ^ 64) :
    (pieceLength substring index start).toNat = index + 1 - substring.length - start.toNat := by
  have small : (UInt64.ofNat (index + 1)).toNat = index + 1 := UInt64.toNat_ofNat_of_lt' short
  have smaller : (UInt64.ofNat substring.length).toNat = substring.length :=
    UInt64.toNat_ofNat_of_lt' (by show substring.length < 2 ^ 64; omega)
  have first : (UInt64.ofNat (index + 1) - UInt64.ofNat substring.length).toNat =
      index + 1 - substring.length := by
    rw [UInt64.toNat_sub_of_le _ _ (by rw [UInt64.le_iff_toNat_le]; omega), small, smaller]
  rw [pieceLength, UInt64.toNat_sub_of_le, first, UInt32.toNat_toUInt64]
  rw [UInt64.le_iff_toNat_le, first, UInt32.toNat_toUInt64]
  omega

/-- The stores made so far: one for each entry up to the cursor, inside the string. -/
structure Filling (total : Nat) (cursor : UInt32) (stores : List Store) : Prop where
  counted : stores.map Store.entry = List.range cursor.toNat
  inside : ∀ store ∈ stores, store.offset + store.length ≤ total

theorem Filling.below {total : Nat} {cursor : UInt32} {stores : List Store}
    (filling : Filling total cursor stores) : ∀ store ∈ stores, store.entry < cursor.toNat := by
  intro store member
  have listed := List.mem_map_of_mem (f := Store.entry) member
  rw [filling.counted] at listed
  exact List.mem_range.mp listed

/-- A store into the entry at the cursor. -/
theorem Filling.store {total offset length : Nat} {cursor next : UInt32} {stores : List Store}
    (filling : Filling total cursor stores) (advanced : next.toNat = cursor.toNat + 1)
    (inside : offset + length ≤ total) :
    Filling total next (stores ++ [⟨cursor.toNat, offset, length⟩]) := by
  constructor
  · rw [List.map_append, filling.counted, advanced, List.range_succ]
    rfl
  · intro store member
    rcases List.mem_append.mp member with before | added
    · exact filling.inside store before
    · obtain rfl := List.mem_singleton.mp added
      exact inside

/-- A split that ends with the cursor inside the array has been safe. -/
theorem Filling.safe {total : Nat} {size cursor : UInt32} {stores : List Store}
    (filling : Filling total cursor stores) (bounded : cursor.toNat ≤ size.toNat) :
    SplitSafe total size (cursor, stores) where
  below := fun store member => lt_of_lt_of_le (filling.below store member) bounded
  counted := filling.counted
  bounded := bounded
  inside := filling.inside

/-- The next index of a u32 that is below another. -/
theorem toNat_succ_of_lt {cursor size : UInt32} (room : cursor < size) :
    (cursor + 1).toNat = cursor.toNat + 1 := by
  have below := UInt32.lt_iff_toNat_lt.mp room
  have bound := size.toNat_lt
  rw [UInt32.toNat_add]
  apply Nat.mod_eq_of_lt
  simp only [UInt32.reduceToNat]
  omega

/-- The loop is safe exactly when the pieces to come do not fill the room that is left.

Induct over the bytes left to read. The start of the piece and the bytes matched never
reach beyond the index, so no length is negative. -/
theorem splitLoop_safe_iff {substring : Bytes} {size : UInt32} {total : Nat}
    (nonempty : 0 < substring.length) (short : total < 2 ^ 64) (rest : Bytes) (index : Nat)
    (check start cursor : UInt32) (stores : List Store)
    (whole : index + rest.length = total) (located : start.toNat + check.toNat ≤ index)
    (filling : Filling total cursor stores) (bounded : cursor.toNat ≤ size.toNat) :
    SplitSafe total size (splitLoop substring size rest index check start cursor stores) ↔
      ¬ Overruns (cuts substring rest index check start) (size.toNat - cursor.toNat) := by
  induction rest generalizing index check start cursor stores with
  | nil =>
    rw [List.length_nil, Nat.add_zero] at whole
    rw [splitLoop, cuts, overruns_nil]
    by_cases room : cursor < size
    · have below := UInt32.lt_iff_toNat_lt.mp room
      have small : (UInt64.ofNat index).toNat = index :=
        UInt64.toNat_ofNat_of_lt' (by show index < 2 ^ 64; omega)
      have length : (UInt64.ofNat index - start.toUInt64).toNat = index - start.toNat := by
        rw [UInt64.toNat_sub_of_le, small, UInt32.toNat_toUInt64]
        rw [UInt64.le_iff_toNat_le, small, UInt32.toNat_toUInt64]
        omega
      have advanced := toNat_succ_of_lt room
      have stored : SplitSafe total size (cursor + 1, stores ++
          [⟨cursor.toNat, start.toNat, (UInt64.ofNat index - start.toUInt64).toNat⟩]) :=
        (filling.store advanced (by omega)).safe (by omega)
      exact iff_of_true stored (by omega)
    · have full : cursor.toNat = size.toNat := by
        have above := UInt32.not_lt.mp room
        rw [UInt32.le_iff_toNat_le] at above
        omega
      refine iff_of_false ?_ (by omega)
      intro safe
      have behind := safe.below ⟨cursor.toNat, start.toNat, _⟩
        (List.mem_append_right _ List.mem_cons_self)
      exact absurd behind (by simp [full])
  | cons byte rest inductionHypothesis =>
    rw [List.length_cons] at whole
    have small : (UInt32.ofNat (index + 1)).toNat ≤ index + 1 := by
      rw [UInt32.toNat_ofNat']
      exact Nat.mod_le _ _
    simp only [splitLoop, cuts]
    split
    · split
      · rename_i complete
        have matched : check.toNat + 1 = substring.length := by
          have bound := check.toNat_lt
          rw [UInt32.toNat_add] at complete
          simp only [UInt32.reduceToNat] at complete
          omega
        have length : (pieceLength substring index start).toNat =
            index + 1 - substring.length - start.toNat := pieceLength_toNat (by omega) (by omega)
        by_cases room : cursor < size
        · have below := UInt32.lt_iff_toNat_lt.mp room
          obtain ⟨left, remaining⟩ : ∃ left, size.toNat - cursor.toNat = left + 1 :=
            ⟨size.toNat - cursor.toNat - 1, by omega⟩
          rw [if_pos room, remaining]
          by_cases stored : pieceLength substring index start ≠ 0
          · have advanced := toNat_succ_of_lt room
            rw [if_pos stored, overruns_stored _ _ stored,
              inductionHypothesis (index + 1) 0 (UInt32.ofNat (index + 1)) (cursor + 1) _ (by omega)
                (by simpa using small) (filling.store advanced (by omega)) (by omega), advanced,
              show size.toNat - (cursor.toNat + 1) = left by omega]
          · rw [if_neg stored, not_not.mp stored, overruns_dropped, ← remaining]
            exact inductionHypothesis (index + 1) 0 (UInt32.ofNat (index + 1)) cursor stores
              (by omega) (by simpa using small) filling bounded
        · have full : size.toNat - cursor.toNat = 0 := by
            have above := UInt32.not_lt.mp room
            rw [UInt32.le_iff_toNat_le] at above
            omega
          rw [if_neg room, full]
          exact iff_of_true (filling.safe bounded) (not_overruns_full _ _)
      · refine inductionHypothesis (index + 1) (check + 1) start cursor stores (by omega) ?_
          filling bounded
        have wrapped : (check + 1).toNat ≤ check.toNat + 1 := by
          rw [UInt32.toNat_add]
          exact Nat.mod_le _ _
        omega
    · exact inductionHypothesis (index + 1) 0 start cursor stores (by omega)
        (by simp only [UInt32.reduceToNat]; omega) filling bounded

/-- For every string, every separator that is not empty and every size, a split stores only
entries of the array, as many as it returns and no more than the array has, with views inside
the string, exactly unless the pieces in front of the separators it finds, as far as they are
not empty, are as many as the array has entries and the last of them is not empty. -/
theorem split_safe_iff (content substring : Bytes) (size : UInt32) (nonempty : substring ≠ [])
    (short : content.length < 2 ^ 64) :
    SplitSafe content.length size (splitBySubstring content substring size) ↔
      ¬ Overruns (cuts substring content 0 0 0) size.toNat := by
  have positive : 0 < substring.length := List.length_pos_iff.mpr nonempty
  have start : Filling content.length 0 [] := ⟨rfl, by simp⟩
  rw [splitBySubstring, if_neg (Nat.ne_of_gt positive)]
  exact splitLoop_safe_iff positive short content 0 0 0 0 [] (by simp) (by simp) start (by simp)

/-- On a string shorter than 2^32 bytes no variable wraps, and the stores are the pieces of
the one-pass scan. -/
theorem splitLoop_eq_scan {substring : Bytes} {size : UInt32} {total : Nat}
    (short : total < 2 ^ 32) (rest : Bytes) (index : Nat)
    (check start cursor : UInt32) (stores : List Store)
    (whole : index + rest.length = total) (located : start.toNat + check.toNat ≤ index)
    (counted : stores.length = cursor.toNat) :
    (splitLoop substring size rest index check start cursor stores).2.map
        (fun store => (store.offset, store.length)) =
      scan substring size.toNat rest index check.toNat start.toNat
        (stores.map (fun store => (store.offset, store.length))) := by
  induction rest generalizing index check start cursor stores with
  | nil =>
    rw [List.length_nil, Nat.add_zero] at whole
    have small : (UInt64.ofNat index).toNat = index :=
      UInt64.toNat_ofNat_of_lt' (by show index < 2 ^ 64; omega)
    have length : (UInt64.ofNat index - start.toUInt64).toNat = index - start.toNat := by
      rw [UInt64.toNat_sub_of_le, small, UInt32.toNat_toUInt64]
      rw [UInt64.le_iff_toNat_le, small, UInt32.toNat_toUInt64]
      omega
    simp [splitLoop, scan, length]
  | cons byte rest inductionHypothesis =>
    rw [List.length_cons] at whole
    have behind : (UInt32.ofNat (index + 1)).toNat = index + 1 :=
      UInt32.toNat_ofNat_of_lt' (by show index + 1 < 2 ^ 32; omega)
    have onward : (check + 1).toNat = check.toNat + 1 := by
      rw [UInt32.toNat_add]
      apply Nat.mod_eq_of_lt
      simp only [UInt32.reduceToNat]
      omega
    have before : (UInt32.ofNat (index + 1)).toNat + (0 : UInt32).toNat ≤ index + 1 := by
      rw [behind]
      simp
    simp only [splitLoop, scan, onward]
    by_cases equal : substring[check.toNat]? = some byte
    · rw [if_pos equal, if_pos equal]
      by_cases complete : substring.length = check.toNat + 1
      · have length : (pieceLength substring index start).toNat =
            index + 1 - substring.length - start.toNat := pieceLength_toNat (by omega) (by omega)
        have empty : pieceLength substring index start = 0 ↔
            index + 1 - substring.length - start.toNat = 0 := by
          rw [← length, ← UInt64.toNat_inj]
          rfl
        have room : (stores.map (fun store => (store.offset, store.length))).length < size.toNat ↔
            cursor < size := by
          rw [List.length_map, counted, UInt32.lt_iff_toNat_lt]
        rw [if_pos complete, if_pos complete.symm]
        by_cases below : cursor < size
        · rw [if_pos below, if_pos (room.mpr below)]
          by_cases stored : pieceLength substring index start = 0
          · rw [if_neg (not_not.mpr stored), if_neg (not_not.mpr (empty.mp stored)),
              inductionHypothesis (index + 1) 0 _ cursor stores (by omega) before counted, behind]
            rfl
          · rw [if_pos stored, if_pos (fun none => stored (empty.mpr none)),
              inductionHypothesis (index + 1) 0 _ (cursor + 1) _ (by omega) before
                (by rw [toNat_succ_of_lt below, List.length_append, counted]; rfl), behind]
            simp [length]
        · rw [if_neg below, if_neg (fun more => below (room.mp more))]
      · rw [if_neg complete, if_neg (fun same => complete same.symm),
          inductionHypothesis (index + 1) (check + 1) start cursor stores (by omega) (by omega)
            counted, onward]
    · rw [if_neg equal, if_neg equal,
        inductionHypothesis (index + 1) 0 start cursor stores (by omega)
          (by simp only [UInt32.reduceToNat]; omega) counted]
      rfl

/-- The pieces stored are those of the model that counts in naturals. -/
theorem splitBySubstring_views (before content after substring : Bytes) (size : UInt32)
    (nonempty : substring ≠ []) (short : content.length < 2 ^ 32) :
    VHttp.splitBySubstring (before ++ content ++ after) ⟨before.length, content.length⟩ substring
        size.toNat =
      some ((splitBySubstring content substring size).2.map
        (fun store => ⟨before.length + store.offset, store.length⟩)) := by
  have positive : 0 < substring.length := List.length_pos_iff.mpr nonempty
  have scanned : scan substring size.toNat content 0 0 0 [] =
      (splitBySubstring content substring size).2.map
        (fun store => (store.offset, store.length)) := by
    rw [splitBySubstring, if_neg (Nat.ne_of_gt positive)]
    exact (splitLoop_eq_scan short content 0 0 0 0 [] (by simp) (by simp) rfl).symm
  rw [splitBySubstring_eq_scan substring size.toNat before content after positive, scanned,
    List.map_map]
  rfl

/-- The request line "a b c d": three pieces fill the caller's array, the fourth is stored
behind it. -/
theorem last_piece_overruns :
    ¬ ∀ (content substring : Bytes) (size : UInt32), substring ≠ [] → 1 ≤ size →
      content.length < 2 ^ 64 →
      SplitSafe content.length size (splitBySubstring content substring size) := by
  intro always
  have safe := always [97, 32, 98, 32, 99, 32, 100] [32] 3 (by decide) (by decide) (by decide)
  have fourth : (⟨3, 6, 1⟩ : Store) ∈
      (splitBySubstring [97, 32, 98, 32, 99, 32, 100] [32] 3).2 := by decide
  exact absurd (safe.below _ fourth) (by decide)

/-- With a space behind the third piece the split stops in time. -/
theorem split_safe_trailing :
    SplitSafe 7 3 (splitBySubstring [97, 32, 98, 32, 99, 32, 32] [32] 3) :=
  (split_safe_iff [97, 32, 98, 32, 99, 32, 32] [32] 3 (by decide) (by decide)).mpr (by decide)

end VHttp.Splitting
