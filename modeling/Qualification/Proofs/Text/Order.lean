import Mathlib.Algebra.GroupWithZero.Nat
import Mathlib.Order.Defs.LinearOrder

/-! # The order of texts

Texts are in the order of their octets in UTF-8, which is how a store compares them. Numbers
that are written in parts, the leading one first, are in the order of their parts.
-/

namespace Qualification

/-- Numbers are compared by their leading parts first. -/
theorem scaled_compare {k a b x y : Nat} (hx : x < k) (hy : y < k) :
    (k * a + x < k * b + y ↔ a < b ∨ a = b ∧ x < y) ∧
      (k * a + x = k * b + y ↔ a = b ∧ x = y) := by
  have parts {a x : Nat} (hx : x < k) : (k * a + x) / k = a ∧ (k * a + x) % k = x := by
    have positive : 0 < k := by omega
    rw [Nat.mul_add_div positive, Nat.div_eq_of_lt hx, Nat.mul_add_mod, Nat.mod_eq_of_lt hx]
    exact ⟨rfl, rfl⟩
  rcases Nat.lt_trichotomy a b with less | rfl | greater
  · have next : k * a + k ≤ k * b := by
      rw [← Nat.mul_succ]
      exact Nat.mul_le_mul_left k less
    omega
  · omega
  · have next : k * b + k ≤ k * a := by
      rw [← Nat.mul_succ]
      exact Nat.mul_le_mul_left k greater
    omega

namespace Text

/-- The octets of a text in UTF-8. -/
def octets (s : String) : List UInt8 :=
  s.toList.flatMap String.utf8EncodeChar

theorem octets_eq_toUTF8 (s : String) : octets s = s.toUTF8.data.toList := by
  have encoded : s.toUTF8 = s.toList.utf8Encode := String.utf8Encode_toList.symm
  rw [encoded, List.utf8Encode]
  simp [octets]

/-- Does one row of octets come before another at a place that both have? -/
def Before : List UInt8 → List UInt8 → Prop
  | a :: as, b :: bs => a < b ∨ a = b ∧ Before as bs
  | _, _ => False

theorem Before.append_lt {as bs : List UInt8} (h : Before as bs) (cs ds : List UInt8) :
    as ++ cs < bs ++ ds := by
  induction as generalizing bs with
  | nil => cases h
  | cons a as ih =>
      cases bs with
      | nil => cases h
      | cons b bs =>
          rw [List.cons_append, List.cons_append, List.cons_lt_cons_iff]
          exact h.imp_right fun ⟨same, rest⟩ => ⟨same, ih rest⟩

/-- The octets behind the first one: digits in base 64, the greatest first. -/
def trail : Nat → Nat → List UInt8
  | 0, _ => []
  | k + 1, n => .ofNat (n / 64 ^ k % 64 + 0x80) :: trail k n

theorem ofNat_compare {m n : Nat} (hm : m < 256) (hn : n < 256) :
    (UInt8.ofNat m < UInt8.ofNat n ↔ m < n) ∧ (UInt8.ofNat m = UInt8.ofNat n ↔ m = n) := by
  rw [UInt8.lt_iff_toNat_lt, ← UInt8.toNat_inj, UInt8.toNat_ofNat_of_lt' hm,
    UInt8.toNat_ofNat_of_lt' hn]
  exact ⟨Iff.rfl, Iff.rfl⟩

theorem cons_before {p q mark : Nat} {as bs : List UInt8} (fits : p + mark < 256)
    (fits' : q + mark < 256) (h : p < q ∨ p = q ∧ Before as bs) :
    Before (.ofNat (p + mark) :: as) (.ofNat (q + mark) :: bs) := by
  obtain ⟨less, same⟩ := ofNat_compare fits fits'
  refine h.imp (fun first => less.mpr ?_) (And.imp_left fun equal => same.mpr ?_)
  · exact Nat.add_lt_add_right first mark
  · rw [equal]

theorem trail_before {k m n : Nat} (less : m % 64 ^ k < n % 64 ^ k) :
    Before (trail k m) (trail k n) := by
  induction k with
  | zero => omega
  | succ k ih =>
      have positive : 0 < 64 ^ k := Nat.pow_pos (by decide)
      have parts := scaled_compare (Nat.mod_lt m positive) (Nat.mod_lt n positive)
        (a := m / 64 ^ k % 64) (b := n / 64 ^ k % 64)
      rw [Nat.mod_pow_succ, Nat.mod_pow_succ, Nat.add_comm, Nat.add_comm (n % _), parts.1] at less
      exact cons_before (by omega) (by omega) (less.imp_right (And.imp_right ih))

/-- How many octets a character takes behind the first. -/
def width (n : Nat) : Nat :=
  if n < 0x80 then 0 else if n < 0x800 then 1 else if n < 0x10000 then 2 else 3

/-- The least first octet of a character with so many octets behind it. -/
def lead (k : Nat) : Nat :=
  [0, 0xc0, 0xe0, 0xf0, 0xf8].getD k 0

theorem width_mono {m n : Nat} (h : m ≤ n) : width m ≤ width n ∧ width n < 4 := by
  unfold width
  repeat' split
  all_goals omega

theorem lead_mono : ∀ j < 4, ∀ k < 4, j < k → lead (j + 1) ≤ lead k := by decide

theorem lead_top : ∀ k < 4, lead (k + 1) < 256 := by decide

theorem toNat_lt (c : Char) : c.toNat < 0x110000 := by
  have valid : c.val.toNat < 0xd800 ∨ 0xdfff < c.val.toNat ∧ c.val.toNat < 0x110000 := c.valid
  change c.val.toNat < 0x110000
  omega

theorem utf8EncodeChar_eq (c : Char) : String.utf8EncodeChar c =
    .ofNat (c.toNat / 64 ^ width c.toNat + lead (width c.toNat)) ::
      trail (width c.toNat) c.toNat := by
  have valid := toNat_lt c
  have spelled : String.utf8EncodeChar c = (let n := c.toNat; if n ≤ 0x7f then [.ofNat n]
      else if n ≤ 0x7ff then [.ofNat (n / 64 % 0x20 + 0xc0), .ofNat (n % 64 + 0x80)]
      else if n ≤ 0xffff then
        [.ofNat (n / 4096 % 0x10 + 0xe0), .ofNat (n / 64 % 64 + 0x80), .ofNat (n % 64 + 0x80)]
      else [.ofNat (n / 262144 % 8 + 0xf0), .ofNat (n / 4096 % 64 + 0x80),
        .ofNat (n / 64 % 64 + 0x80), .ofNat (n % 64 + 0x80)]) := rfl
  rw [spelled]
  generalize c.toNat = n at *
  dsimp only
  split
  · have none : width n = 0 := if_pos (by omega)
    simp [none, trail, lead]
  · split
    · have one : width n = 1 := by rw [width, if_neg (by omega), if_pos (by omega)]
      have small : n / 64 % 32 = n / 64 := Nat.mod_eq_of_lt (by omega)
      simp [one, trail, lead, small]
    · split
      · have two : width n = 2 := by
          rw [width, if_neg (by omega), if_neg (by omega), if_pos (by omega)]
        have small : n / 4096 % 16 = n / 4096 := Nat.mod_eq_of_lt (by omega)
        simp [two, trail, lead, small]
      · have three : width n = 3 := by
          rw [width, if_neg (by omega), if_neg (by omega), if_neg (by omega)]
        have small : n / 262144 % 8 = n / 262144 := Nat.mod_eq_of_lt (by omega)
        simp [three, trail, lead, small]

theorem first_lt {n : Nat} (valid : n < 0x110000) :
    n / 64 ^ width n + lead (width n) < lead (width n + 1) := by
  unfold width
  repeat' split
  all_goals
    simp only [lead, List.getD_cons_zero, List.getD_cons_succ]
    omega

/-- The lesser of two characters has fewer octets behind the first one, or lesser digits. -/
theorem encoded_before {c d : Char} (less : c < d) :
    Before (String.utf8EncodeChar c) (String.utf8EncodeChar d) := by
  have less : c.toNat < d.toNat := less
  have first := first_lt (toNat_lt c)
  have first' := first_lt (toNat_lt d)
  obtain ⟨wider, narrow⟩ := width_mono (Nat.le_of_lt less)
  rw [utf8EncodeChar_eq, utf8EncodeChar_eq]
  generalize c.toNat = m at *
  generalize d.toNat = n at *
  have top := lead_top _ narrow
  rcases Nat.lt_or_eq_of_le wider with shorter | same
  · have marks := lead_mono _ (by omega) _ narrow shorter
    generalize m / 64 ^ width m = p at *
    generalize n / 64 ^ width n = q at *
    exact .inl ((ofNat_compare (by omega) (by omega)).1.mpr (by omega))
  · rw [same] at first ⊢
    have positive : 0 < 64 ^ width n := Nat.pow_pos (by decide)
    have parts := scaled_compare (Nat.mod_lt m positive) (Nat.mod_lt n positive)
      (a := m / 64 ^ width n) (b := n / 64 ^ width n)
    rw [Nat.div_add_mod, Nat.div_add_mod] at parts
    exact cons_before (by omega) (by omega)
      ((parts.1.mp less).imp_right (And.imp_right trail_before))

theorem encode_lt {cs ds : List Char} (less : cs < ds) :
    cs.flatMap String.utf8EncodeChar < ds.flatMap String.utf8EncodeChar := by
  induction cs generalizing ds with
  | nil =>
      cases ds with
      | nil => cases less
      | cons d ds =>
          rw [List.flatMap_nil, List.flatMap_cons, utf8EncodeChar_eq]
          exact List.nil_lt_cons _ _
  | cons c cs ih =>
      cases ds with
      | nil => cases less
      | cons d ds =>
          rw [List.flatMap_cons, List.flatMap_cons]
          rcases List.cons_lt_cons_iff.mp less with first | ⟨rfl, rest⟩
          · exact (encoded_before first).append_lt _ _
          · exact List.append_left_lt (ih rest)

/-- The order of texts is that of their octets. -/
theorem lt_iff_octets {s t : String} : s < t ↔ octets s < octets t := by
  refine ⟨encode_lt, fun less => ?_⟩
  by_contra other
  have least : t ≤ s := String.not_lt.mp other
  by_cases greater : t < s
  · exact List.lt_asymm less (encode_lt greater)
  · rw [String.le_antisymm (String.not_lt.mp greater) least] at less
    exact List.lt_irrefl _ less

end Text

end Qualification
