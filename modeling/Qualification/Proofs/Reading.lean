/-! # Lists that are read entry by entry

A list is read if each of its entries is, and what is read stands in their order.
-/

namespace Qualification

variable {α β γ : Type} {read : α → Option β}

theorem mapM_cons_some {a : α} {rest : List α} {bs : List β} :
    (a :: rest).mapM read = some bs ↔
      ∃ b others, read a = some b ∧ rest.mapM read = some others ∧ bs = b :: others := by
  simp only [List.mapM_cons, Option.bind_eq_bind, Option.bind_eq_some_iff, Option.pure_def,
    Option.some.injEq, eq_comm (a := bs), exists_and_left]

theorem exists_mapM {as : List α} :
    (∃ bs, as.mapM read = some bs) ↔ ∀ a ∈ as, ∃ b, read a = some b := by
  induction as with
  | nil => simp
  | cons a rest ih =>
      rw [List.forall_mem_cons, ← ih]
      constructor
      · rintro ⟨_, h⟩
        obtain ⟨b, others, first, rest, _⟩ := mapM_cons_some.mp h
        exact ⟨⟨b, first⟩, others, rest⟩
      · rintro ⟨⟨b, first⟩, others, rest⟩
        exact ⟨_, mapM_cons_some.mpr ⟨b, others, first, rest, rfl⟩⟩

/-- What is read of chosen entries is chosen of what is read of them all. -/
theorem mapM_filter {chosen : α → Bool} {kept : β → Bool}
    (agree : ∀ a b, read a = some b → kept b = chosen a) {as : List α} {bs : List β}
    (h : as.mapM read = some bs) : (as.filter chosen).mapM read = some (bs.filter kept) := by
  induction as generalizing bs with
  | nil =>
      cases h
      rfl
  | cons a rest ih =>
      obtain ⟨b, others, first, more, rfl⟩ := mapM_cons_some.mp h
      have same := agree a b first
      by_cases pick : chosen a
      · rw [List.filter_cons_of_pos pick, List.filter_cons_of_pos (same.trans pick)]
        exact mapM_cons_some.mpr ⟨b, _, first, ih more, rfl⟩
      · rw [List.filter_cons_of_neg pick, List.filter_cons_of_neg (same ▸ pick)]
        exact ih more

/-- Each value that is read is read of an entry. -/
theorem exists_of_mapM {as : List α} {bs : List β} (h : as.mapM read = some bs) {b : β}
    (member : b ∈ bs) : ∃ a ∈ as, read a = some b := by
  induction as generalizing bs with
  | nil =>
      cases h
      cases member
  | cons a rest ih =>
      obtain ⟨first, others, readFirst, more, rfl⟩ := mapM_cons_some.mp h
      rcases List.mem_cons.mp member with rfl | later
      · exact ⟨a, List.mem_cons_self, readFirst⟩
      · obtain ⟨c, inRest, readLater⟩ := ih more later
        exact ⟨c, List.mem_cons_of_mem a inRest, readLater⟩

/-- Values that keep the keys of their entries have them in their order. -/
theorem mapM_keys {key : α → γ} {keyOf : β → γ} (kept : ∀ a b, read a = some b → keyOf b = key a)
    {as : List α} {bs : List β} (h : as.mapM read = some bs) : bs.map keyOf = as.map key := by
  induction as generalizing bs with
  | nil =>
      cases h
      rfl
  | cons a rest ih =>
      obtain ⟨b, others, first, more, rfl⟩ := mapM_cons_some.mp h
      rw [List.map_cons, List.map_cons, kept a b first, ih more]

/-- What is written of the entries of a list is read back entry by entry. -/
theorem mapM_map_some {write : γ → α} {back : γ → β} {cs : List γ}
    (each : ∀ c ∈ cs, read (write c) = some (back c)) :
    (cs.map write).mapM read = some (cs.map back) := by
  induction cs with
  | nil => rfl
  | cons c rest ih =>
      obtain ⟨first, others⟩ := List.forall_mem_cons.mp each
      exact mapM_cons_some.mpr ⟨_, _, first, ih others, rfl⟩

/-- A list of values of a function is the image of a list. -/
theorem exists_map_eq {f : γ → α} {P : γ → Prop} {as : List α}
    (each : ∀ a ∈ as, ∃ c, P c ∧ f c = a) : ∃ cs : List γ, (∀ c ∈ cs, P c) ∧ cs.map f = as := by
  induction as with
  | nil => exact ⟨[], nofun, rfl⟩
  | cons a rest ih =>
      obtain ⟨⟨c, holds, rfl⟩, others⟩ := List.forall_mem_cons.mp each
      obtain ⟨cs, allHold, rfl⟩ := ih others
      exact ⟨c :: cs, List.forall_mem_cons.mpr ⟨holds, allHold⟩, rfl⟩

end Qualification
