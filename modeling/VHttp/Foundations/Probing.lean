import Mathlib.Data.Nat.Find
import VHttp.Foundations.Circular

/-!
# Linear probing in a circular array

A probe starts at a home slot and moves one slot at a time, wrapping at the end,
until it meets a slot that satisfies a stop test. The loop has no bound of its
own; fuel counts the slots it examines, and after as many slots as the array has
nothing new can be met, so that many is always enough to tell a probe that stops
from one that never does.

A slot is chained to a home when every slot strictly nearer is occupied:
the law under which a probe that passes over occupied slots still finds it.
-/

namespace VHttp.Probing

open Circular

universe u
variable {α : Type u}

/-- Probe from `index` until a slot satisfies `stop`. No result means that the
fuel ran out first; the test is made before the move, as in a while loop. -/
def search (stop : α → Bool) (slots : List α) : Nat → Nat → Option Nat
  | 0, _ => none
  | fuel + 1, index =>
    match slots[index]? with
    | none => none
    | some item =>
      if stop item then some index else search stop slots fuel ((index + 1) % slots.length)

/-- The slot at `index` exists and satisfies the test. -/
def Stops (stop : α → Bool) (slots : List α) (index : Nat) : Prop :=
  ∃ item, slots[index]? = some item ∧ stop item = true

/-- Every slot strictly nearer to `home` than `index` is occupied. -/
def Chained (occupied : Nat → Prop) (capacity home index : Nat) : Prop :=
  ∀ nearer, nearer < distance capacity home index → occupied (slot capacity home nearer)

/-- A probe that looks at an image of each slot is a probe of the images. -/
theorem search_map {β : Type u} (image : α → β) (stop : β → Bool) (slots : List α)
    (fuel index : Nat) :
    search (fun item => stop (image item)) slots fuel index =
      search stop (slots.map image) fuel index := by
  induction fuel generalizing index with
  | zero => rfl
  | succ fuel inductionHypothesis =>
    simp only [search, List.getElem?_map, List.length_map]
    cases slots[index]? with
    | none => rfl
    | some item => simp only [Option.map_some, inductionHypothesis]

/-- A probe stops at the first satisfying slot on its way, and only there. -/
theorem search_some_iff (stop : α → Bool) (slots : List α) (fuel home found : Nat)
    (inside : home < slots.length) :
    search stop slots fuel home = some found ↔
      ∃ steps, steps < fuel ∧ found = slot slots.length home steps ∧
        Stops stop slots found ∧
        ∀ nearer, nearer < steps → ¬ Stops stop slots (slot slots.length home nearer) := by
  induction fuel generalizing home with
  | zero => simp [search]
  | succ fuel inductionHypothesis =>
    have positive : 0 < slots.length := by omega
    have read : slots[home]? = some slots[home] := List.getElem?_eq_getElem inside
    have here : Stops stop slots home ↔ stop slots[home] = true := by simp [Stops, read]
    by_cases stopped : stop slots[home] = true
    · simp only [search, read, stopped, ↓reduceIte, Option.some.injEq]
      constructor
      · rintro rfl
        exact ⟨0, Nat.succ_pos _, (slot_zero _ _ inside).symm, here.mpr stopped, by simp⟩
      · rintro ⟨steps, _, reached, _, passed⟩
        cases steps with
        | zero => rw [reached, slot_zero _ _ inside]
        | succ steps =>
          have blocked := passed 0 (Nat.succ_pos _)
          rw [slot_zero _ _ inside] at blocked
          exact absurd (here.mpr stopped) blocked
    · simp only [search, read, stopped, Bool.false_eq_true, ↓reduceIte]
      rw [inductionHypothesis ((home + 1) % slots.length) (Nat.mod_lt _ positive)]
      constructor
      · rintro ⟨steps, short, reached, satisfied, passed⟩
        refine ⟨steps + 1, by omega, by rw [reached, slot_step], satisfied, ?_⟩
        intro nearer closer
        cases nearer with
        | zero => rw [slot_zero _ _ inside, here]; exact stopped
        | succ nearer =>
          rw [← slot_step]
          exact passed nearer (by omega)
      · rintro ⟨steps, short, reached, satisfied, passed⟩
        cases steps with
        | zero =>
          rw [reached, slot_zero _ _ inside, here] at satisfied
          exact absurd satisfied stopped
        | succ steps =>
          refine ⟨steps, by omega, by rw [reached, slot_step], satisfied, ?_⟩
          intro nearer closer
          rw [slot_step]
          exact passed (nearer + 1) (by omega)

/-- Wherever a probe stops, from any index, its test is satisfied. -/
theorem search_stops {stop : α → Bool} {slots : List α} {fuel index found : Nat}
    (stopped : search stop slots fuel index = some found) : Stops stop slots found := by
  induction fuel generalizing index with
  | zero => simp [search] at stopped
  | succ fuel inductionHypothesis =>
    cases read : slots[index]? with
    | none => simp [search, read] at stopped
    | some item =>
      by_cases satisfied : stop item = true
      · simp only [search, read, satisfied, ↓reduceIte, Option.some.injEq] at stopped
        subst found
        exact ⟨item, read, satisfied⟩
      · simp only [search, read, satisfied, Bool.false_eq_true, ↓reduceIte] at stopped
        exact inductionHypothesis stopped

/-- One satisfying slot anywhere is enough for the probe to stop. -/
theorem search_total (stop : α → Bool) (slots : List α) (home index : Nat)
    (homeInside : home < slots.length) (satisfied : Stops stop slots index) :
    ∃ found, search stop slots slots.length home = some found := by
  have inside : index < slots.length := by
    obtain ⟨item, read, _⟩ := satisfied
    exact (List.getElem?_eq_some_iff.mp read).1
  have exists_steps : ∃ steps, Stops stop slots (slot slots.length home steps) :=
    ⟨distance slots.length home index, by rwa [slot_distance _ _ _ homeInside inside]⟩
  classical
  have least := Nat.find_spec exists_steps
  have bound : Nat.find exists_steps ≤ distance slots.length home index :=
    Nat.find_min' exists_steps (by rwa [slot_distance _ _ _ homeInside inside])
  have short := lt_of_le_of_lt bound (distance_lt slots.length home index (by omega))
  exact ⟨_, (search_some_iff _ _ _ _ _ homeInside).mpr
    ⟨Nat.find exists_steps, short, rfl, least, fun nearer closer => Nat.find_min exists_steps closer⟩⟩

/-- A probe from `home` meets a satisfying slot within one turn of the array. -/
def Meets (stop : α → Bool) (slots : List α) (home : Nat) : Prop :=
  ∃ steps, steps < slots.length ∧ Stops stop slots (slot slots.length home steps)

/-- Every slot is within one turn of every home. -/
theorem meets_iff {stop : α → Bool} {slots : List α} {home : Nat} (inside : home < slots.length) :
    Meets stop slots home ↔ ∃ index, Stops stop slots index := by
  constructor
  · rintro ⟨steps, _, satisfied⟩
    exact ⟨_, satisfied⟩
  · rintro ⟨index, satisfied⟩
    have bound : index < slots.length := by
      obtain ⟨item, read, _⟩ := satisfied
      exact (List.getElem?_eq_some_iff.mp read).1
    refine ⟨distance slots.length home index, distance_lt _ _ _ (by omega), ?_⟩
    rwa [slot_distance _ _ _ inside bound]

/-- A probe ends exactly when it meets a satisfying slot. -/
theorem search_returns_iff {stop : α → Bool} {slots : List α} {home : Nat}
    (inside : home < slots.length) :
    (∃ found, search stop slots slots.length home = some found) ↔ Meets stop slots home := by
  rw [meets_iff inside]
  constructor
  · rintro ⟨found, stopped⟩
    exact ⟨found, search_stops stopped⟩
  · rintro ⟨index, satisfied⟩
    exact search_total stop slots home index inside satisfied

/-- A probe that meets no such slot in one turn never ends, however long it runs. -/
theorem search_endless {stop : α → Bool} {slots : List α} {home : Nat}
    (inside : home < slots.length) (never : ¬ Meets stop slots home) (fuel : Nat) :
    search stop slots fuel home = none := by
  cases stopped : search stop slots fuel home with
  | none => rfl
  | some found => exact absurd ((meets_iff inside).mpr ⟨found, search_stops stopped⟩) never

/-- A stopped probe rests on an existing slot that satisfies its test, chained
to its home by slots that do not. -/
theorem search_spec {stop : α → Bool} {slots : List α} {home found : Nat}
    (inside : home < slots.length)
    (stopped : search stop slots slots.length home = some found) :
    found < slots.length ∧ Stops stop slots found ∧
      Chained (fun index => ¬ Stops stop slots index) slots.length home found := by
  obtain ⟨steps, short, reached, satisfied, passed⟩ :=
    (search_some_iff stop slots slots.length home found inside).mp stopped
  have bound : found < slots.length := by
    rw [reached]
    exact slot_lt _ _ _ (by omega)
  refine ⟨bound, satisfied, ?_⟩
  intro nearer closer
  rw [reached, distance_slot _ _ _ inside short] at closer
  exact passed nearer closer

/-- The converse: a satisfying slot chained to home by slots that do not satisfy
the test is the one at which the probe stops. -/
theorem search_of_chained {stop : α → Bool} {slots : List α} {home found : Nat}
    (inside : home < slots.length) (satisfied : Stops stop slots found)
    (chained : Chained (fun index => ¬ Stops stop slots index) slots.length home found) :
    search stop slots slots.length home = some found := by
  have bound : found < slots.length := by
    obtain ⟨item, read, _⟩ := satisfied
    exact (List.getElem?_eq_some_iff.mp read).1
  exact (search_some_iff _ _ _ _ _ inside).mpr ⟨distance slots.length home found,
    distance_lt _ _ _ (by omega), (slot_distance _ _ _ inside bound).symm, satisfied, chained⟩

/-- More occupied slots keep every chain. -/
theorem Chained.mono {occupied wider : Nat → Prop} {capacity home index : Nat}
    (implied : ∀ tested, occupied tested → wider tested)
    (chained : Chained occupied capacity home index) : Chained wider capacity home index :=
  fun nearer closer => implied _ (chained nearer closer)

end VHttp.Probing
