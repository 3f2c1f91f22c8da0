import Qualification.Dictionary

/-! # The order of a dictionary

The names of a dictionary that is built by putting entries are distinct and in ascending
order, and a list that is in this order already is its own dictionary.
-/

namespace Qualification.Dictionary

variable {α β : Type} {name other : String} {value : α} {d : Dictionary α}

theorem mapValues_keys (f : α → β) (d : Dictionary α) : (d.mapValues f).keys = d.keys := by
  rw [keys, mapValues, List.map_map]
  rfl

@[simp]
theorem mapValues_nil (f : α → β) : mapValues f [] = [] :=
  rfl

@[simp]
theorem mapValues_cons (f : α → β) (entry : String × α) (rest : Dictionary α) :
    mapValues f (entry :: rest) = (entry.1, f entry.2) :: mapValues f rest :=
  rfl

@[simp]
theorem mapValues_append (f : α → β) (d rest : Dictionary α) :
    mapValues f (d ++ rest) = mapValues f d ++ mapValues f rest :=
  List.map_append

theorem mem_keys_iff : name ∈ d.keys ↔ ∃ value, get? name d = some value := by
  induction d with
  | nil => simp [keys, get?]
  | cons entry rest ih =>
      obtain ⟨key, old⟩ := entry
      by_cases same : key = name
      · simp [keys, get?, same]
      · have others : name ∈ keys ((key, old) :: rest) ↔ name ∈ keys rest := by
          simp [keys, Ne.symm same]
        rw [others, ih, get?, if_neg same]

theorem mem_of_get? (h : get? name d = some value) : (name, value) ∈ d := by
  induction d with
  | nil => cases h
  | cons entry rest ih =>
      obtain ⟨key, old⟩ := entry
      rw [get?] at h
      split at h
      · rename_i same
        cases h
        exact same ▸ List.mem_cons_self
      · exact List.mem_cons_of_mem _ (ih h)

theorem mem_keys_insert : other ∈ (insert name value d).keys ↔ other = name ∨ other ∈ d.keys := by
  by_cases same : other = name
  · subst same
    simp [mem_keys_iff, get?_insert_self]
  · simp [mem_keys_iff, get?_insert_of_ne same, same]

theorem insert_sorted (h : d.Sorted) : (insert name value d).Sorted := by
  induction d with
  | nil => simp [insert, Sorted, keys]
  | cons entry rest ih =>
      obtain ⟨key, old⟩ := entry
      obtain ⟨first, others⟩ := List.pairwise_cons.mp h
      rw [insert]
      split
      · rename_i before
        refine List.pairwise_cons.mpr ⟨fun a member => ?_, h⟩
        rcases List.mem_cons.mp member with rfl | inRest
        · exact before
        · exact String.lt_trans before (first a inRest)
      · split
        · rename_i same
          subst same
          exact List.pairwise_cons.mpr ⟨first, others⟩
        · rename_i notBefore different
          refine List.pairwise_cons.mpr ⟨fun a member => ?_, ih others⟩
          rcases mem_keys_insert.mp member with rfl | inRest
          · exact Std.lt_of_le_of_ne (String.not_lt.mp notBefore) different
          · exact first a inRest

theorem foldl_insert_sorted (entries : List (String × α))
    (sorted : d.Sorted) : Sorted (entries.foldl (fun d e => insert e.1 e.2 d) d) := by
  induction entries generalizing d with
  | nil => exact sorted
  | cons e rest ih => exact ih (insert_sorted sorted)

theorem sorted_ofList (entries : List (String × α)) : (ofList entries).Sorted :=
  foldl_insert_sorted entries .nil

theorem mem_insert {e : String × α} (h : e ∈ insert name value d) : e = (name, value) ∨ e ∈ d := by
  induction d with
  | nil => exact .inl (List.mem_singleton.mp h)
  | cons entry rest ih =>
      rw [insert] at h
      split at h
      · exact List.mem_cons.mp h
      · split at h
        · exact (List.mem_cons.mp h).imp_right (List.mem_cons_of_mem entry)
        · rcases List.mem_cons.mp h with rfl | inRest
          · exact .inr List.mem_cons_self
          · exact (ih inRest).imp_right (List.mem_cons_of_mem entry)

theorem mem_foldl_insert {entries : List (String × α)} {e : String × α}
    (h : e ∈ entries.foldl (fun d e => insert e.1 e.2 d) d) : e ∈ d ∨ e ∈ entries := by
  induction entries generalizing d with
  | nil => exact .inl h
  | cons first rest ih =>
      rcases ih h with old | inRest
      · rcases mem_insert old with rfl | old
        · exact .inr List.mem_cons_self
        · exact .inl old
      · exact .inr (List.mem_cons_of_mem first inRest)

theorem mem_of_mem_ofList {entries : List (String × α)} {e : String × α}
    (h : e ∈ ofList entries) : e ∈ entries :=
  (mem_foldl_insert h).resolve_left List.not_mem_nil

/-- A name behind all others is put at the end. -/
theorem insert_last (behind : ∀ key ∈ d.keys, key < name) :
    insert name value d = d ++ [(name, value)] := by
  induction d with
  | nil => rfl
  | cons entry rest ih =>
      obtain ⟨key, old⟩ := entry
      obtain ⟨first, others⟩ := List.forall_mem_cons.mp behind
      have first : key < name := first
      have apart : key ≠ name := fun same => String.lt_irrefl name (same ▸ first)
      rw [insert, if_neg (String.lt_asymm first), if_neg apart, ih others]
      rfl

/-- The dictionary of a list in order is the list. -/
theorem ofList_sorted (sorted : Sorted d) : ofList d = d := by
  have build : ∀ more done : Dictionary α, Sorted (done ++ more) →
      more.foldl (fun d e => insert e.1 e.2 d) done = done ++ more := by
    intro more
    induction more with
    | nil => exact fun done _ => (List.append_nil done).symm
    | cons entry rest ih =>
        intro done inOrder
        have behind : ∀ key ∈ done.keys, key < entry.1 := by
          intro key member
          simp only [Sorted, keys, List.map_append, List.map_cons] at inOrder
          exact (List.pairwise_append.mp inOrder).2.2 key member entry.1 List.mem_cons_self
        rw [List.foldl_cons, insert_last behind, ih _ (by simpa using inOrder)]
        simp
  exact build d [] sorted

theorem insert_perm (new : name ∉ d.keys) : (insert name value d).Perm ((name, value) :: d) := by
  induction d with
  | nil => exact .refl _
  | cons entry rest ih =>
      obtain ⟨key, old⟩ := entry
      have different : name ≠ key := fun same => new (same ▸ List.mem_cons_self)
      have fresh : name ∉ keys rest := fun known => new (List.mem_cons_of_mem _ known)
      rw [insert]
      split
      · exact .refl _
      · rw [if_neg (Ne.symm different)]
        exact ((ih fresh).cons _).trans (.swap _ _ _)

/-- The dictionary of entries under distinct names has these entries and no others. -/
theorem ofList_perm {entries : List (String × α)} (distinct : (entries.map (·.1)).Nodup) :
    (ofList entries).Perm entries := by
  have build : ∀ (more : List (String × α)) (done : Dictionary α),
      (done.keys ++ more.map (·.1)).Nodup →
        (more.foldl (fun d e => insert e.1 e.2 d) done).Perm (done ++ more) := by
    intro more
    induction more with
    | nil =>
        intro done _
        rw [List.append_nil]
        exact .refl done
    | cons entry rest ih =>
        intro done distinct
        have turned : (entry.1 :: (done.keys ++ rest.map (·.1))).Nodup :=
          List.perm_middle.nodup_iff.mp distinct
        have new : entry.1 ∉ done.keys := fun known =>
          (List.nodup_cons.mp turned).1 (List.mem_append_left _ known)
        have inserted : (insert entry.1 entry.2 done).Perm (entry :: done) := insert_perm new
        have names : (insert entry.1 entry.2 done).keys.Perm (entry.1 :: done.keys) :=
          List.Perm.map (fun e : String × α => e.1) inserted
        have apart : ((insert entry.1 entry.2 done).keys ++ rest.map (·.1)).Nodup :=
          (names.append_right _).nodup_iff.mpr turned
        calc
          List.Perm (rest.foldl (fun d e => insert e.1 e.2 d) (insert entry.1 entry.2 done))
              (insert entry.1 entry.2 done ++ rest) := ih _ apart
          List.Perm _ (entry :: done ++ rest) := inserted.append_right rest
          List.Perm _ (done ++ entry :: rest) := List.perm_middle.symm
  exact build entries [] distinct

end Qualification.Dictionary
