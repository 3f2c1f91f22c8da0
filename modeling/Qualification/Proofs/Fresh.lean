import Mathlib.Data.List.Nodup
import Qualification.Proofs.Refusal

/-! # New identities

Entries that come one after the other, each with an identity that none before it has: the
identities are distinct, and none of them was there before.
-/

namespace Qualification

/-- Are the identities new, and no two of them the same? -/
def Fresh {α : Type} (seen ids : List α) : Prop :=
  ids.Nodup ∧ ∀ id ∈ ids, id ∉ seen

variable {α : Type} {seen : List α}

theorem fresh_nil : Fresh seen ([] : List α) :=
  ⟨List.nodup_nil, nofun⟩

theorem fresh_of_nothing {ids : List α} : Fresh [] ids ↔ ids.Nodup :=
  ⟨fun h => h.1, fun h => ⟨h, fun _ _ => List.not_mem_nil⟩⟩

theorem fresh_cons {id : α} {ids : List α} :
    Fresh seen (id :: ids) ↔ id ∉ seen ∧ Fresh (id :: seen) ids := by
  simp only [Fresh, List.nodup_cons, List.mem_cons, forall_eq_or_imp, not_or]
  constructor
  · rintro ⟨⟨new, distinct⟩, unseen, others⟩
    exact ⟨unseen, distinct, fun a member => ⟨fun same => new (same ▸ member), others a member⟩⟩
  · rintro ⟨unseen, distinct, others⟩
    exact ⟨⟨fun member => (others id member).1 rfl, distinct⟩, unseen,
      fun a member => (others a member).2⟩

theorem fresh_append {left right : List α} :
    Fresh seen (left ++ right) ↔ Fresh seen left ∧ Fresh (left ++ seen) right := by
  simp only [Fresh, List.nodup_append, List.mem_append, not_or]
  constructor
  · rintro ⟨⟨distinctLeft, distinctRight, apart⟩, unseen⟩
    exact ⟨⟨distinctLeft, fun a member => unseen a (.inl member)⟩, distinctRight,
      fun a member => ⟨fun inLeft => apart a inLeft a member rfl, unseen a (.inr member)⟩⟩
  · rintro ⟨⟨distinctLeft, unseenLeft⟩, distinctRight, unseenRight⟩
    refine ⟨⟨distinctLeft, distinctRight, ?_⟩, ?_⟩
    · rintro a inLeft _ inRight rfl
      exact (unseenRight a inRight).1 inLeft
    · rintro a (inLeft | inRight)
      · exact unseenLeft a inLeft
      · exact (unseenRight a inRight).2

theorem fresh_congr {seen' ids : List α} (same : ∀ a, a ∈ seen ↔ a ∈ seen') :
    Fresh seen ids ↔ Fresh seen' ids := by
  simp only [Fresh, same]

/-- Rows are added one after the other if their identities are new and the entries that
    they are made of keep what else is asked of them. -/
theorem foldlM_add_ok {σ β ρ ε : Type} {add : σ → β → Except ε σ} (grow : σ → List ρ → σ)
    (row : β → ρ) (idsIn : σ → List α) (idOf : β → α) (rule : β → Prop)
    (nothing : ∀ s, grow s [] = s)
    (twice : ∀ s more rest, grow (grow s more) rest = grow s (more ++ rest))
    (meaning : ∀ s b next, add s b = .ok next ↔
      idOf b ∉ idsIn s ∧ rule b ∧ next = grow s [row b])
    (grown : ∀ s b, idsIn (grow s [row b]) = idsIn s ++ [idOf b])
    {s next : σ} {entries : List β} :
    entries.foldlM add s = .ok next ↔
      Fresh (idsIn s) (entries.map idOf) ∧ (∀ b ∈ entries, rule b) ∧
        next = grow s (entries.map row) := by
  induction entries generalizing s with
  | nil => simp [fresh_nil, nothing, pure, Except.pure, eq_comm]
  | cons b rest ih =>
      have later : Fresh (idsIn (grow s [row b])) (rest.map idOf) ↔
          Fresh (idOf b :: idsIn s) (rest.map idOf) :=
        fresh_congr fun a => by simp [grown, or_comm]
      have whole : grow (grow s [row b]) (rest.map row) = grow s ((b :: rest).map row) :=
        twice s [row b] (rest.map row)
      rw [List.foldlM_cons, ← whole, List.map_cons, fresh_cons, List.forall_mem_cons, ← later]
      constructor
      · intro h
        obtain ⟨middle, first, others⟩ := bind_ok h
        obtain ⟨new, kept, rfl⟩ := (meaning s b middle).mp first
        obtain ⟨fresh, rules, rfl⟩ := ih.mp others
        exact ⟨⟨new, fresh⟩, ⟨kept, rules⟩, rfl⟩
      · rintro ⟨⟨new, fresh⟩, ⟨kept, rules⟩, rfl⟩
        rw [(meaning s b _).mpr ⟨new, kept, rfl⟩]
        exact ih.mpr ⟨fresh, rules, rfl⟩

end Qualification
