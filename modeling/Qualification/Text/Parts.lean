/-! # Parts of a text

A text cut at every separator. The parts with separators between them are the text again.
-/

namespace Qualification.Text

/-- The parts of a text between its separators; a text without any is one part. -/
def parts (separator : Char) : List Char → List (List Char)
  | [] => [[]]
  | c :: rest =>
      if c = separator then [] :: parts separator rest
      else match parts separator rest with
        | part :: others => (c :: part) :: others
        | [] => [[c]]

def unite (separator : Char) : List (List Char) → List Char
  | [] => []
  | [part] => part
  | part :: rest => part ++ separator :: unite separator rest

theorem parts_ne_nil (separator : Char) (cs : List Char) : parts separator cs ≠ [] := by
  cases cs with
  | nil => simp [parts]
  | cons c rest =>
      unfold parts
      split
      · simp
      · split <;> simp

theorem unite_cons_of_ne_nil (separator : Char) (part : List Char)
    {others : List (List Char)} (h : others ≠ []) :
    unite separator (part :: others)
      = part ++ separator :: unite separator others := by
  cases others with
  | nil => exact absurd rfl h
  | cons _ _ => rfl

theorem unite_parts (separator : Char) (cs : List Char) :
    unite separator (parts separator cs) = cs := by
  induction cs with
  | nil => rfl
  | cons c rest ih =>
      unfold parts
      split
      next h =>
        rw [unite_cons_of_ne_nil separator [] (parts_ne_nil separator rest), ih, h]
        rfl
      next =>
        revert ih
        cases parts separator rest with
        | nil => intro ih; simp [unite] at ih ⊢; exact ih
        | cons part others =>
            intro ih
            cases others with
            | nil => simpa [unite] using ih
            | cons _ _ => simpa [unite] using ih

theorem parts_of_not_mem {separator : Char} {part : List Char} (h : separator ∉ part) :
    parts separator part = [part] := by
  induction part with
  | nil => rfl
  | cons c rest ih =>
      rw [List.mem_cons, not_or] at h
      rw [parts, if_neg (Ne.symm h.1), ih h.2]

theorem parts_append_cons {separator : Char} {part : List Char} (h : separator ∉ part)
    (rest : List Char) : parts separator (part ++ separator :: rest)
      = part :: parts separator rest := by
  induction part with
  | nil => rw [List.nil_append, parts, if_pos rfl]
  | cons c part ih =>
      rw [List.mem_cons, not_or] at h
      rw [List.cons_append, parts, if_neg (Ne.symm h.1), ih h.2]

end Qualification.Text
