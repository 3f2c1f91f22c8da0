import Mathlib.Data.List.Nodup
import Qualification.Protocol.Cache

/-! # The entries of a cache

What putting and dropping entries does to a lookup and to the order of the keys. Keys that
are in order are distinct, so that dropping the first entry of a file drops no other one.
-/

namespace Qualification

namespace ProtocolKey

variable {k l m : ProtocolKey}

theorem lt_iff : k.lt l ↔ k.id < l.id ∨ k.id = l.id ∧ k.version < l.version := by
  simp [lt]

theorem lt_trans (first : k.lt l) (second : l.lt m) : k.lt m := by
  rw [lt_iff] at *
  cases first with
  | inl before =>
      cases second with
      | inl before' => exact .inl (String.lt_trans before before')
      | inr same => exact .inl (same.1 ▸ before)
  | inr same =>
      cases second with
      | inl before => exact .inl (same.1 ▸ before)
      | inr same' => exact .inr ⟨same.1.trans same'.1, String.lt_trans same.2 same'.2⟩

theorem lt_ne (before : k.lt l) : k ≠ l := by
  intro same
  subst same
  rw [lt_iff] at before
  cases before with
  | inl earlier => exact String.lt_irrefl _ earlier
  | inr earlier => exact String.lt_irrefl _ earlier.2

theorem lt_of_not_lt (notBefore : ¬ k.lt l) (different : l ≠ k) : l.lt k := by
  rw [lt_iff, not_or] at notBefore
  have ids := String.not_lt.mp notBefore.1
  rw [lt_iff]
  by_cases same : l.id = k.id
  · refine .inr ⟨same, Std.lt_of_le_of_ne ?_ ?_⟩
    · exact String.not_lt.mp fun earlier => notBefore.2 ⟨same.symm, earlier⟩
    · intro version
      apply different
      cases l
      cases k
      simp_all
  · exact .inl (Std.lt_of_le_of_ne ids same)

end ProtocolKey

namespace ProtocolCache

variable {c : ProtocolCache} {key other : ProtocolKey} {e old : LoadedProtocol} {path : String}

theorem mem_of_found (h : c.entry? key = some e) : (key, e) ∈ c.entries := by
  rw [ entry?, Option.map_eq_some_iff] at h
  obtain ⟨found, first, rfl⟩ := h
  have same : found.1 = key := by simpa using List.find?_some first
  subst same
  exact List.mem_of_find?_eq_some first

theorem entry?_eq_none : c.entry? key = none ↔ ∀ x ∈ c.entries, x.1 ≠ key := by
  simp [ entry?]

theorem get?_eq_some {p : ProtocolDefinition} :
    c.get? key = some p ↔ ∃ e, c.entry? key = some e ∧ e.protocol = p := by
  simp [get?]

theorem entry?_put_self (c : ProtocolCache) (e : LoadedProtocol) :
    entry? (c.put e) e.protocol.key = some e := by
  obtain ⟨entries⟩ := c
  simp only [put, entry?]
  induction entries with
  | nil => simp [insertEntry]
  | cons x rest ih =>
      rw [insertEntry]
      split
      · simp
      · split
        · simp
        · rename_i different
          rw [List.find?_cons_of_neg (by simpa using different), ih]

theorem entry?_put_of_ne (different : other ≠ e.protocol.key) :
    entry? (c.put e) other = c.entry? other := by
  obtain ⟨entries⟩ := c
  simp only [put, entry?]
  induction entries with
  | nil => simp [insertEntry, different.symm]
  | cons x rest ih =>
      rw [insertEntry]
      split
      · rw [List.find?_cons_of_neg (by simpa using different.symm)]
      · split
        · rename_i same
          rw [List.find?_cons_of_neg (by simpa using different.symm),
            List.find?_cons_of_neg (by simpa [same] using different.symm)]
        · by_cases here : x.1 = other
          · simp [here]
          · rw [List.find?_cons_of_neg (by simpa using here),
              List.find?_cons_of_neg (by simpa using here), ih]

theorem entry?_invalidate_self (c : ProtocolCache) (key : ProtocolKey) :
    entry? (c.invalidate key) key = none := by
  simp [entry?_eq_none, invalidate]

theorem mem_put {x : ProtocolKey × LoadedProtocol} (h : x ∈ (c.put e).entries) :
    x = (e.protocol.key, e) ∨ x ∈ c.entries := by
  obtain ⟨entries⟩ := c
  simp only [put] at h ⊢
  induction entries with
  | nil => simpa [insertEntry] using h
  | cons y rest ih =>
      rw [insertEntry] at h
      split at h
      · simpa using h
      · split at h
        · cases List.mem_cons.mp h with
          | inl new => exact .inl new
          | inr more => exact .inr (List.mem_cons_of_mem _ more)
        · cases List.mem_cons.mp h with
          | inl first => exact .inr (first ▸ List.mem_cons_self)
          | inr more => exact (ih more).imp_right (List.mem_cons_of_mem _)

theorem mem_invalidate {x : ProtocolKey × LoadedProtocol} :
    x ∈ (c.invalidate key).entries ↔ x ∈ c.entries ∧ x.1 ≠ key := by
  simp [invalidate]

theorem invalidateSource_subset {x : ProtocolKey × LoadedProtocol}
    (h : x ∈ (c.invalidateSource path).entries) : x ∈ c.entries := by
  rw [invalidateSource] at h
  split at h
  · exact (mem_invalidate.mp h).1
  · exact h

/-- Putting an entry leaves the choice of others alone, if the choice takes none under its
    key. -/
theorem filter_put {chosen : ProtocolKey × LoadedProtocol → Bool}
    (none : ∀ e', chosen (e.protocol.key, e') = false) :
    (c.put e).entries.filter chosen = c.entries.filter chosen := by
  obtain ⟨entries⟩ := c
  simp only [put]
  induction entries with
  | nil => simp [insertEntry, none]
  | cons x rest ih =>
      obtain ⟨k, old⟩ := x
      rw [insertEntry]
      split
      · rw [List.filter_cons_of_neg (by simp [none])]
      · split
        · rename_i same
          subst same
          simp [none]
        · simp only [List.filter_cons, ih]

/-- Are the keys in ascending order? -/
def Sorted (c : ProtocolCache) : Prop :=
  c.keys.Pairwise fun k l => k.lt l

theorem Sorted.nodup (h : c.Sorted) : c.keys.Nodup :=
  h.imp ProtocolKey.lt_ne

theorem entry?_of_mem (sorted : c.Sorted) {x : ProtocolKey × LoadedProtocol}
    (member : x ∈ c.entries) : c.entry? x.1 = some x.2 := by
  cases found : c.entry? x.1 with
  | none => exact absurd rfl (entry?_eq_none.mp found x member)
  | some e =>
      have equal := List.inj_on_of_nodup_map sorted.nodup member (mem_of_found found) rfl
      rw [equal]

theorem Sorted.filter (h : c.Sorted) (chosen : ProtocolKey × LoadedProtocol → Bool) :
    Sorted ⟨c.entries.filter chosen⟩ := by
  have sub : (c.entries.filter chosen).Sublist c.entries := List.filter_sublist
  exact h.sublist (sub.map Prod.fst)

theorem Sorted.invalidate (h : c.Sorted) : (c.invalidate key).Sorted :=
  h.filter _

theorem Sorted.invalidateSource (h : c.Sorted) : (c.invalidateSource path).Sorted := by
  rw [ProtocolCache.invalidateSource]
  split
  · exact h.invalidate
  · exact h

theorem Sorted.put (h : c.Sorted) : (c.put e).Sorted := by
  obtain ⟨entries⟩ := c
  induction entries with
  | nil => simp [ProtocolCache.put, insertEntry, Sorted, keys]
  | cons x rest ih =>
      obtain ⟨k, old⟩ := x
      obtain ⟨first, others⟩ := List.pairwise_cons.mp h
      simp only [Sorted, ProtocolCache.put, insertEntry]
      split
      · rename_i before
        refine List.pairwise_cons.mpr ⟨?_, h⟩
        intro l member
        cases List.mem_cons.mp member with
        | inl same => exact same ▸ before
        | inr inRest => exact ProtocolKey.lt_trans before (first l inRest)
      · split
        · rename_i same
          subst same
          exact List.pairwise_cons.mpr ⟨first, others⟩
        · rename_i notBefore different
          refine List.pairwise_cons.mpr ⟨?_, ih others⟩
          intro l member
          obtain ⟨x, inserted, rfl⟩ := List.mem_map.mp member
          cases mem_put (c := ⟨rest⟩) inserted with
          | inl new => exact new ▸ ProtocolKey.lt_of_not_lt notBefore different
          | inr old => exact first x.1 (List.mem_map_of_mem old)

/-- Distinct keys: without the key of the first chosen entry, the chosen entries are those
    after it. -/
theorem filter_without_first {entries : List (ProtocolKey × LoadedProtocol)}
    (distinct : (entries.map Prod.fst).Nodup) {chosen : ProtocolKey × LoadedProtocol → Bool}
    {x : ProtocolKey × LoadedProtocol} (first : entries.find? chosen = some x) :
    (entries.filter fun y => y.1 ≠ x.1).filter chosen = (entries.filter chosen).drop 1 := by
  have split : entries.filter chosen = x :: (entries.filter chosen).drop 1 := by
    rw [← List.head?_filter] at first
    rw [List.drop_one]
    exact (List.cons_head?_tail first).symm
  -- A chosen entry after the first one cannot have its key, so no other one is lost.
  have apart : ∀ y ∈ (entries.filter chosen).drop 1, y.1 ≠ x.1 := by
    have nodup := distinct.sublist (List.filter_sublist (p := chosen) |>.map Prod.fst)
    rw [split, List.map_cons, List.nodup_cons] at nodup
    intro y member same
    exact nodup.1 (same ▸ List.mem_map_of_mem member)
  rw [List.filter_filter, List.filter_congr (q := fun y => decide (y.1 ≠ x.1) && chosen y)
    (fun _ _ => Bool.and_comm _ _), ← List.filter_filter, split, List.drop_one]
  simpa [List.filter_cons] using apart

end ProtocolCache

end Qualification
