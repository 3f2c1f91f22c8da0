/-! # Stable sorting

Sorting keeps the order of what it does not tell apart, so that it may as well be done
before or after a choice of entries.
-/

namespace Qualification

variable {α : Type}

/-- Two lists of entries of one kind, each followed by entries of the other kind: if they
    agree on the whole they agree on both parts. -/
theorem parts_eq {first : α → Bool} {as bs cs ds : List α} (same : as ++ bs = cs ++ ds)
    (inAs : ∀ a ∈ as, first a) (inBs : ∀ b ∈ bs, ¬ first b) (inCs : ∀ c ∈ cs, first c)
    (inDs : ∀ d ∈ ds, ¬ first d) : as = cs ∧ bs = ds := by
  have firsts := congrArg (List.filter first) same
  rw [List.filter_append, List.filter_append, List.filter_eq_self.mpr inAs,
    List.filter_eq_nil_iff.mpr inBs, List.filter_eq_self.mpr inCs,
    List.filter_eq_nil_iff.mpr inDs, List.append_nil, List.append_nil] at firsts
  subst firsts
  exact ⟨rfl, List.append_cancel_left same⟩

/-- A sorted list is parted by an entry that comes as early as it can. -/
theorem mergeSort_parted {le : α → α → Bool} (trans : ∀ a b c, le a b → le b c → le a c)
    (total : ∀ a b, le a b || le b a) (a : α) (entries : List α) :
    ∃ before after, (a :: entries).mergeSort le = before ++ a :: after ∧
      entries.mergeSort le = before ++ after ∧ (∀ b ∈ before, !le a b) ∧
        ∀ b ∈ after, ¬ !le a b := by
  obtain ⟨before, after, whole, rest, earlier⟩ := List.mergeSort_cons trans total a entries
  refine ⟨before, after, whole, rest, earlier, fun b member => ?_⟩
  have sorted := List.pairwise_mergeSort trans total (a :: entries)
  rw [whole] at sorted
  have later := (List.pairwise_cons.mp (List.pairwise_append.mp sorted).2.1).1 b member
  simp [later]

theorem mergeSort_filter {le : α → α → Bool} (trans : ∀ a b c, le a b → le b c → le a c)
    (total : ∀ a b, le a b || le b a) (chosen : α → Bool) (entries : List α) :
    (entries.mergeSort le).filter chosen = (entries.filter chosen).mergeSort le := by
  induction entries with
  | nil => simp
  | cons a rest ih =>
      obtain ⟨before, after, whole, others, earlier, later⟩ :=
        mergeSort_parted trans total a rest
      rw [others] at ih
      by_cases pick : chosen a
      · obtain ⟨before', after', whole', others', earlier', later'⟩ :=
          mergeSort_parted trans total a (rest.filter chosen)
        rw [others', List.filter_append] at ih
        obtain ⟨sameBefore, sameAfter⟩ := parts_eq ih
          (fun b member => earlier b ((List.mem_filter.mp member).1))
          (fun b member => later b ((List.mem_filter.mp member).1)) earlier' later'
        rw [whole, List.filter_cons_of_pos pick, whole', List.filter_append,
          List.filter_cons_of_pos pick, sameBefore, sameAfter]
      · rw [whole, List.filter_cons_of_neg pick, ← ih, List.filter_append, List.filter_append,
          List.filter_cons_of_neg pick]

end Qualification
