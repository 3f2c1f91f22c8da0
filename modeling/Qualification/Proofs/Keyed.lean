import Mathlib.Algebra.GroupWithZero.Nat
import Mathlib.Data.List.Forall2
import Mathlib.Data.List.Nodup
import Qualification.Keyed

/-! # Records with unique identities

What a change of the first record of an identity keeps and what it makes of the whole list.
Where identities are unique, the record found under one is the only record that has it.
-/

namespace Qualification.Keyed

variable {α β : Type} {idOf : α → String} {id : String} {change : α → α} {l : List α}

/-- What a change keeps is the same all along the list. -/
theorem map_changeFirst {view : α → β} (kept : ∀ a, view (change a) = view a) (l : List α) :
    (changeFirst idOf id change l).map view = l.map view := by
  induction l with
  | nil => rfl
  | cons a rest ih =>
      simp only [changeFirst]
      split
      · rw [List.map_cons, kept, List.map_cons]
      · rw [List.map_cons, ih, List.map_cons]

/-- The record that a change concerns is the first of its identity. -/
theorem changeFirst_append {earlier later : List α} {a : α} (change : α → α)
    (none : ∀ b ∈ earlier, idOf b ≠ id) (same : idOf a = id) :
    changeFirst idOf id change (earlier ++ a :: later) = earlier ++ change a :: later := by
  induction earlier with
  | nil => simp [changeFirst, same]
  | cons b rest ih =>
      obtain ⟨other, others⟩ := List.forall_mem_cons.mp none
      simp [changeFirst, other, ih others]

/-- Where identities are unique, a change concerns every record of the identity. -/
theorem changeFirst_eq_map (unique : (l.map idOf).Nodup) :
    changeFirst idOf id change l = l.map fun a => if idOf a = id then change a else a := by
  induction l with
  | nil => rfl
  | cons a rest ih =>
      obtain ⟨alone, unique⟩ := List.nodup_cons.mp unique
      simp only [changeFirst, List.map_cons, ih unique]
      split
      · rename_i same
        congr 1
        refine (List.map_id' rest).symm.trans (List.map_congr_left fun b member => ?_)
        have other : idOf b ≠ id := by
          intro again
          exact alone (List.mem_map.mpr ⟨b, member, again.trans same.symm⟩)
        rw [if_neg other]
      · rfl

/-- The record found under the identity is the one that was changed. -/
theorem find?_changeFirst (kept : ∀ a, idOf (change a) = idOf a) (l : List α) :
    (changeFirst idOf id change l).find? (fun a => idOf a = id) =
      (l.find? fun a => idOf a = id).map change := by
  induction l with
  | nil => rfl
  | cons a rest ih =>
      by_cases same : idOf a = id
      · simp [changeFirst, same, kept]
      · simp [changeFirst, same, ih]

/-- After a change of one record, there are the changed one and the others. -/
theorem mem_changeFirst (unique : (l.map idOf).Nodup) {a b : α} (ha : a ∈ l) :
    b ∈ changeFirst idOf (idOf a) change l ↔ b = change a ∨ b ∈ l ∧ idOf b ≠ idOf a := by
  rw [changeFirst_eq_map unique, List.mem_map]
  constructor
  · rintro ⟨c, member, rfl⟩
    split
    · rename_i same
      rw [List.inj_on_of_nodup_map unique member ha same]
      exact .inl rfl
    · rename_i other
      exact .inr ⟨member, other⟩
  · rintro (rfl | ⟨member, other⟩)
    · exact ⟨a, ha, if_pos rfl⟩
    · exact ⟨b, member, if_neg other⟩

/-- A record found under an identity is the one that has it. -/
theorem find?_of_mem (unique : (l.map idOf).Nodup) {a : α} (ha : a ∈ l) :
    l.find? (fun b => idOf b = idOf a) = some a := by
  cases found : l.find? (fun b => idOf b = idOf a) with
  | none =>
      have missing := List.find?_eq_none.mp found a ha
      simp at missing
  | some b =>
      have same : idOf b = idOf a := by simpa using List.find?_some found
      rw [List.inj_on_of_nodup_map unique (List.mem_of_find?_eq_some found) ha same]

/-- The records before that of an identity are those with a smaller index. -/
theorem mem_takeWhile_iff (unique : (l.map idOf).Nodup) {a : α} :
    a ∈ l.takeWhile (fun b => idOf b != id) ↔
      a ∈ l ∧ (l.map idOf).idxOf (idOf a) < (l.map idOf).idxOf id := by
  induction l with
  | nil => simp
  | cons b rest ih =>
      obtain ⟨alone, unique⟩ := List.nodup_cons.mp unique
      by_cases reached : idOf b = id
      · subst reached
        simp
      · have later : ((b :: rest).map idOf).idxOf id = (rest.map idOf).idxOf id + 1 :=
          List.idxOf_cons_ne _ reached
        have inRest : a ∈ rest → ((b :: rest).map idOf).idxOf (idOf a) =
            (rest.map idOf).idxOf (idOf a) + 1 := fun member =>
          List.idxOf_cons_ne _ fun same => alone (List.mem_map.mpr ⟨a, member, same.symm⟩)
        rw [List.takeWhile_cons_of_pos (by simpa using reached), List.mem_cons, ih unique, later]
        constructor
        · rintro (rfl | ⟨member, less⟩)
          · exact ⟨List.mem_cons_self, by simp⟩
          · rw [inRest member]
            exact ⟨List.mem_cons_of_mem b member, Nat.succ_lt_succ less⟩
        · rintro ⟨_ | ⟨_, member⟩, less⟩
          · exact .inl rfl
          · rw [inRest member] at less
            exact .inr ⟨member, Nat.lt_of_succ_lt_succ less⟩

/-- A change of the first record of an identity concerns only the record found under it. -/
theorem forall₂_changeFirst {R : α → α → Prop} (refl : ∀ a, R a a)
    (found : ∀ a, l.find? (fun b => idOf b = id) = some a → R a (change a)) :
    List.Forall₂ R l (changeFirst idOf id change l) := by
  induction l with
  | nil => exact .nil
  | cons a rest ih =>
      simp only [changeFirst]
      split
      · rename_i same
        refine .cons (found a ?_) (List.forall₂_same.mpr fun b _ => refl b)
        simp [same]
      · rename_i other
        refine .cons (refl a) (ih fun b first => found b ?_)
        simpa [other] using first

/-- What holds of every record and of the changed one holds after the change. -/
theorem forall_changeFirst {P : α → Prop} (all : ∀ a ∈ l, P a)
    (found : ∀ a, l.find? (fun b => idOf b = id) = some a → P (change a)) :
    ∀ b ∈ changeFirst idOf id change l, P b := by
  induction l with
  | nil => exact all
  | cons a rest ih =>
      obtain ⟨first, others⟩ := List.forall_mem_cons.mp all
      simp only [changeFirst]
      split
      · rename_i same
        exact List.forall_mem_cons.mpr ⟨found a (by simp [same]), others⟩
      · rename_i other
        refine List.forall_mem_cons.mpr ⟨first, ih others fun b later => found b ?_⟩
        simpa [other] using later

/-- A change of one record changes a sum by what it changes of that record. -/
theorem sum_changeFirst (change : α → α) (weight : α → Nat) {a : α}
    (found : l.find? (fun b => idOf b = id) = some a) :
    ((changeFirst idOf id change l).map weight).sum + weight a =
      (l.map weight).sum + weight (change a) := by
  induction l with
  | nil => cases found
  | cons b rest ih =>
      simp only [changeFirst]
      split
      · rename_i same
        obtain rfl : b = a := by simpa [same] using found
        simp only [List.map_cons, List.sum_cons]
        omega
      · rename_i other
        have sum := ih (by simpa [other] using found)
        simp only [List.map_cons, List.sum_cons]
        omega

end Qualification.Keyed
