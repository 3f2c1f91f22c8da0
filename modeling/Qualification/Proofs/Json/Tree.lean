import Qualification.Proofs.Json.Number
import Qualification.Proofs.Json.Text

/-! # JSON text read as a tree

A text with gaps of any kind between its marks is read as the tree of the value that it
spells. What spells a collection is made up of what spells its items.
-/

namespace Qualification.Json

open Document

variable {v : Json} {fuel : Nat} {c : Char} {rest cs : List Char}

/-- A character that begins a value: it is not passed over and ends no collection. -/
structure Begins (c : Char) : Prop where
  noGap : isGap c = false
  noListEnd : c ≠ ']'
  noObjectEnd : c ≠ '}'

theorem skipGap_cons (noGap : isGap c = false) : skipGap (c :: cs) = c :: cs := by
  simp [skipGap, noGap]

/-- The first character of a number is that of no other value. -/
theorem number_first (first : c = '-' ∨ Decimal.isDigit c) :
    Begins c ∧ c ≠ 'n' ∧ c ≠ 't' ∧ c ≠ 'f' ∧ c ≠ '"' ∧ c ≠ '[' ∧ c ≠ '{' := by
  have apart : ∀ d, ¬ (d = '-' ∨ Decimal.isDigit d) → c ≠ d := fun d other same =>
    other (same ▸ first)
  refine ⟨⟨?_, apart ']' (by decide), apart '}' (by decide)⟩, apart 'n' (by decide),
    apart 't' (by decide), apart 'f' (by decide), apart '"' (by decide), apart '[' (by decide),
    apart '{' (by decide)⟩
  simp [isGap, apart ' ' (by decide), apart '\n' (by decide), apart '\t' (by decide),
    apart '\r' (by decide)]

theorem readNode_number (first : c = '-' ∨ Decimal.isDigit c) :
    readNode (fuel + 1) (c :: cs) = settle (readNumber (c :: cs)) := by
  obtain ⟨begins, noNull, noTrue, noFalse, noText, noList, noObject⟩ := number_first first
  rw [readNode, skipGap_cons begins.noGap]
  split
  all_goals first | (simp_all; done) | skip
  rename_i front
  obtain ⟨rfl, rfl⟩ := List.cons.inj front
  rw [if_pos (by simpa using first)]

/-- A text that begins with a mark of JSON ends a number. -/
theorem stops_cons (noDigit : ¬ Decimal.isDigit c) (noPoint : c ≠ '.') (noSmall : c ≠ 'e')
    (noCapital : c ≠ 'E') : Stops (c :: cs) := by
  rintro _ _ ⟨⟩
  exact ⟨noDigit, noPoint, noSmall, noCapital⟩

theorem stops_comma : Stops (',' :: cs) :=
  stops_cons (by decide) (by decide) (by decide) (by decide)

theorem stops_listEnd : Stops (']' :: cs) :=
  stops_cons (by decide) (by decide) (by decide) (by decide)

theorem stops_objectEnd : Stops ('}' :: cs) :=
  stops_cons (by decide) (by decide) (by decide) (by decide)

theorem skipGap_append {gap : List Char} (passed : ∀ c ∈ gap, isGap c) :
    skipGap (gap ++ cs) = skipGap cs :=
  List.dropWhile_append_of_pos passed

theorem readNode_gap {gap : List Char} (passed : ∀ c ∈ gap, isGap c) :
    readNode fuel (gap ++ cs) = readNode fuel cs := by
  cases fuel with
  | zero => rfl
  | succ fuel => simp only [readNode, skipGap_append passed]

theorem stops_gap {gap : List Char} (passed : ∀ c ∈ gap, isGap c) (stops : Stops cs) :
    Stops (gap ++ cs) := by
  cases gap with
  | nil => exact stops
  | cons c more =>
      have blank : ((c = ' ' ∨ c = '\n') ∨ c = '\t') ∨ c = '\r' := by
        simpa [isGap] using passed c List.mem_cons_self
      rcases blank with ((rfl | rfl) | rfl) | rfl <;>
        exact stops_cons (by decide) (by decide) (by decide) (by decide)

/-- The gaps in the text of a collection: before an item, before the value of a member, and
    before the mark at the end. -/
structure Gaps where
  item : List Char
  value : List Char
  close : List Char
  item_passed : ∀ c ∈ item, isGap c
  value_passed : ∀ c ∈ value, isGap c
  close_passed : ∀ c ∈ close, isGap c

namespace Gaps

/-- The items on one line. -/
def none : Gaps :=
  ⟨[], [], [], nofun, nofun, nofun⟩

theorem newLine_passed (level : Nat) : ∀ c ∈ (newLine level).toList, isGap c := by
  intro c member
  have blank : c = '\n' ∨ 0 < 2 * level ∧ c = ' ' := by
    simpa [newLine, Nat.pos_iff_ne_zero] using member
  rcases blank with rfl | ⟨_, rfl⟩ <;> rfl

/-- One item a line. -/
def lines (level : Nat) : Gaps :=
  ⟨(newLine (level + 1)).toList, [' '], (newLine level).toList, newLine_passed _,
    List.forall_mem_singleton.mpr rfl, newLine_passed _⟩

/-- What stands behind an item: the others, each behind a comma, and the mark at the end. -/
def behind (g : Gaps) (mark : Char) : List (List Char) → List Char
  | [] => g.close ++ [mark]
  | one :: more => ',' :: (g.item ++ (one ++ g.behind mark more))

/-- The text of a member, from that of its value. -/
def member (g : Gaps) (name : String) (cs : List Char) : List Char :=
  '"' :: (name.toList.flatMap escaped ++ '"' :: ':' :: (g.value ++ cs))

variable {g : Gaps} {mark : Char} {texts : List (List Char)}

theorem member_append (name : String) : g.member name cs ++ rest =
    '"' :: (name.toList.flatMap escaped ++ '"' :: ':' :: (g.value ++ (cs ++ rest))) := by
  simp [member]

theorem length_member (g : Gaps) (name : String) (cs : List Char) :
    cs.length < (g.member name cs).length := by
  simp only [member, List.length_cons, List.length_append]
  omega

theorem behind_stops (ends : Stops (mark :: rest)) : Stops (g.behind mark texts ++ rest) := by
  cases texts with
  | nil =>
      rw [behind, List.append_assoc, List.singleton_append]
      exact stops_gap g.close_passed ends
  | cons one more => exact stops_comma

/-- Items that are written with commas between them, and what is behind the first one. -/
theorem joined (g : Gaps) (mark : Char) {α : Type} (write : List α → List Char)
    (text : α → List Char) (one : ∀ a, write [a] = g.item ++ text a)
    (more : ∀ a b after, write (a :: b :: after) = g.item ++ (text a ++ ',' :: write (b :: after)))
    (first : α) (others : List α) : write (first :: others) ++ (g.close ++ [mark]) =
      g.item ++ (text first ++ g.behind mark (others.map text)) := by
  induction others generalizing first with
  | nil => rw [one, List.append_assoc, List.map_nil, behind]
  | cons second others ih =>
      rw [more, List.append_assoc, List.append_assoc, List.cons_append, ih, List.map_cons, behind]

end Gaps

/-- A text that a value is read back from, whatever follows that ends a number. -/
structure Spells (cs : List Char) (v : Json) : Prop where
  begins : ∃ c more, cs = c :: more ∧ Begins c
  read : ∀ fuel rest, 2 * cs.length ≤ fuel → Stops rest →
    readNode fuel (cs ++ rest) = (.ofJson v, some rest)

variable {g : Gaps} {text : Json → List Char}

theorem listStart_gap {gap : List Char} (passed : ∀ c ∈ gap, isGap c) (spells : Spells cs v) :
    listStart (gap ++ (cs ++ rest)) = .more (cs ++ rest) := by
  obtain ⟨c, more, rfl, begins⟩ := spells.begins
  rw [listStart, skipGap_append passed, List.cons_append, skipGap_cons begins.noGap]
  split
  · contradiction
  · rename_i front
    exact absurd (List.cons.inj front).1 begins.noListEnd
  · rfl

theorem listNext_comma {gap : List Char} (passed : ∀ c ∈ gap, isGap c) (spells : Spells cs v) :
    listNext (',' :: (gap ++ (cs ++ rest))) = .more (cs ++ rest) := by
  obtain ⟨c, more, rfl, begins⟩ := spells.begins
  have comma (cs : List Char) : skipGap (',' :: cs) = ',' :: cs := skipGap_cons rfl
  simp only [listNext, comma, skipGap_append passed, List.cons_append, skipGap_cons begins.noGap]
  split
  · contradiction
  · rename_i front
    exact absurd (List.cons.inj front).1 begins.noListEnd
  · rfl

theorem listNext_end {gap : List Char} (passed : ∀ c ∈ gap, isGap c) :
    listNext (gap ++ ']' :: rest) = .done none (some rest) := by
  have mark : skipGap (']' :: rest) = ']' :: rest := skipGap_cons rfl
  simp only [listNext, skipGap_append passed, mark]

theorem readItems_more (spells : Spells cs v) (enough : 2 * cs.length ≤ fuel) (stops : Stops rest)
    (before : List Node) : readItems (fuel + 1) before (.more (cs ++ rest)) =
      readItems fuel (.ofJson v :: before) (listNext rest) := by
  rw [readItems, spells.read fuel rest enough stops]

theorem readItems_behind {items : List Json} (each : ∀ v ∈ items, Spells (text v) v)
    (enough : 2 * (g.behind ']' (items.map text)).length ≤ fuel) (before : List Node) :
    readItems fuel before (listNext (g.behind ']' (items.map text) ++ rest)) =
      (.sequence none (before.reverse ++ Node.ofItems items) none, some rest) := by
  -- An item takes one step besides those of its text, and a comma stands before it.
  induction items generalizing fuel before with
  | nil =>
      rw [List.map_nil, Gaps.behind, List.append_assoc, List.singleton_append,
        listNext_end g.close_passed]
      simp [readItems, Node.ofItems]
  | cons first more ih =>
      obtain ⟨spells, others⟩ := List.forall_mem_cons.mp each
      simp only [List.map_cons, Gaps.behind, List.length_cons, List.length_append] at enough
      obtain ⟨fuel, rfl⟩ : ∃ less, fuel = less + 1 := Nat.exists_eq_add_one_of_ne_zero (by omega)
      rw [List.map_cons, Gaps.behind, List.cons_append, List.append_assoc, List.append_assoc,
        listNext_comma g.item_passed spells,
        readItems_more spells (by omega) (Gaps.behind_stops stops_listEnd),
        ih others (by omega)]
      simp [Node.ofItems]

theorem spells_empty_array : Spells ['[', ']'] (.array []) where
  begins := ⟨_, _, rfl, by decide, by decide, by decide⟩
  read fuel rest enough _ := by
    obtain ⟨fuel, rfl⟩ := Nat.exists_eq_add_of_le' enough
    rfl

theorem spells_array (g : Gaps) (text : Json → List Char) {first : Json} {more : List Json}
    (each : ∀ v ∈ first :: more, Spells (text v) v) :
    Spells ('[' :: (g.item ++ (text first ++ g.behind ']' (more.map text))))
      (.array (first :: more)) where
  begins := ⟨_, _, rfl, by decide, by decide, by decide⟩
  read fuel rest enough _ := by
    obtain ⟨spells, others⟩ := List.forall_mem_cons.mp each
    simp only [List.length_cons, List.length_append] at enough
    obtain ⟨fuel, rfl⟩ : ∃ less, fuel = less + 2 := Nat.exists_eq_add_of_le' (by omega)
    have list (cs : List Char) :
        readNode (fuel + 2) ('[' :: cs) = readItems (fuel + 1) [] (listStart cs) := rfl
    rw [List.cons_append, list, List.append_assoc, List.append_assoc,
      listStart_gap g.item_passed spells,
      readItems_more spells (by omega) (Gaps.behind_stops stops_listEnd),
      readItems_behind others (by omega)]
    rfl

theorem objectStart_gap {gap : List Char} (passed : ∀ c ∈ gap, isGap c) :
    objectStart (gap ++ '"' :: cs) = .more cs := by
  have quote : skipGap ('"' :: cs) = '"' :: cs := skipGap_cons rfl
  simp only [objectStart, skipGap_append passed, quote]
  rfl

theorem objectNext_comma {gap : List Char} (passed : ∀ c ∈ gap, isGap c) :
    objectNext (',' :: (gap ++ '"' :: cs)) = .more cs := by
  have comma : skipGap (',' :: (gap ++ '"' :: cs)) = ',' :: (gap ++ '"' :: cs) := skipGap_cons rfl
  have quote : skipGap ('"' :: cs) = '"' :: cs := skipGap_cons rfl
  simp only [objectNext, comma, skipGap_append passed, quote]
  rfl

theorem objectNext_end {gap : List Char} (passed : ∀ c ∈ gap, isGap c) :
    objectNext (gap ++ '}' :: rest) = .done none (some rest) := by
  have mark : skipGap ('}' :: rest) = '}' :: rest := skipGap_cons rfl
  simp only [objectNext, skipGap_append passed, mark]

/-- A member is read from its text behind the quote that opens its name. -/
theorem readMembers_more {name : String} (spells : Spells cs v) (enough : 2 * cs.length ≤ fuel)
    (stops : Stops rest) (before : List (Node × Node)) :
    readMembers (fuel + 1) before (.more (name.toList.flatMap escaped ++
        '"' :: ':' :: (g.value ++ (cs ++ rest)))) =
      readMembers fuel ((.ofText name, .ofJson v) :: before) (objectNext rest) := by
  have colon : skipGap (':' :: (g.value ++ (cs ++ rest))) = ':' :: (g.value ++ (cs ++ rest)) :=
    skipGap_cons rfl
  simp only [readMembers, stringNode_quote, colon, readNode_gap g.value_passed,
    spells.read fuel rest enough stops]

theorem readMembers_behind {members : List (String × Json)}
    (each : ∀ e ∈ members, Spells (text e.2) e.2)
    (enough : 2 * (g.behind '}' (members.map fun e => g.member e.1 (text e.2))).length ≤ fuel)
    (before : List (Node × Node)) :
    readMembers fuel before
        (objectNext (g.behind '}' (members.map fun e => g.member e.1 (text e.2)) ++ rest)) =
      (.mapping none (before.reverse ++ Node.ofMembers members) none, some rest) := by
  induction members generalizing fuel before with
  | nil =>
      rw [List.map_nil, Gaps.behind, List.append_assoc, List.singleton_append,
        objectNext_end g.close_passed]
      simp [readMembers, Node.ofMembers]
  | cons first more ih =>
      obtain ⟨spells, others⟩ := List.forall_mem_cons.mp each
      have length := g.length_member first.1 (text first.2)
      simp only [List.map_cons, Gaps.behind, List.length_cons, List.length_append] at enough
      obtain ⟨fuel, rfl⟩ : ∃ less, fuel = less + 1 := Nat.exists_eq_add_one_of_ne_zero (by omega)
      rw [List.map_cons, Gaps.behind, List.cons_append, List.append_assoc, List.append_assoc,
        Gaps.member_append, objectNext_comma g.item_passed,
        readMembers_more spells (by omega) (Gaps.behind_stops stops_objectEnd),
        ih others (by omega)]
      simp [Node.ofMembers]

theorem spells_empty_object : Spells ['{', '}'] (.object []) where
  begins := ⟨_, _, rfl, by decide, by decide, by decide⟩
  read fuel rest enough _ := by
    obtain ⟨fuel, rfl⟩ := Nat.exists_eq_add_of_le' enough
    rfl

theorem spells_object (g : Gaps) (text : Json → List Char) {first : String × Json}
    {more : List (String × Json)} (each : ∀ e ∈ first :: more, Spells (text e.2) e.2) :
    Spells ('{' :: (g.item ++ (g.member first.1 (text first.2) ++
        g.behind '}' (more.map fun e => g.member e.1 (text e.2))))) (.object (first :: more)) where
  begins := ⟨_, _, rfl, by decide, by decide, by decide⟩
  read fuel rest enough _ := by
    obtain ⟨spells, others⟩ := List.forall_mem_cons.mp each
    have length := g.length_member first.1 (text first.2)
    simp only [List.length_cons, List.length_append] at enough
    obtain ⟨fuel, rfl⟩ : ∃ less, fuel = less + 2 := Nat.exists_eq_add_of_le' (by omega)
    have object (cs : List Char) :
        readNode (fuel + 2) ('{' :: cs) = readMembers (fuel + 1) [] (objectStart cs) := rfl
    rw [List.cons_append, object, List.append_assoc, List.append_assoc, Gaps.member_append,
      objectStart_gap g.item_passed,
      readMembers_more spells (by omega) (Gaps.behind_stops stops_objectEnd),
      readMembers_behind others (by omega)]
    rfl

/-- A number is read back as the value that its parts make up. -/
theorem spells_number {n : Decimal.Numeral} {negative : Bool} (wellFormed : n.WellFormed)
    (text : cs = minus negative ++ n.text)
    (value : numberNode (numberAtom negative n.whole n.fraction n.exponent) = .ofJson v) :
    Spells cs v := by
  obtain ⟨c, more, front, first⟩ := minus_head wellFormed negative
  rw [← text] at front
  refine ⟨⟨c, more, front, (number_first first).1⟩, fun fuel rest enough stops => ?_⟩
  rw [front, List.length_cons] at enough
  obtain ⟨fuel, rfl⟩ : ∃ less, fuel = less + 1 := Nat.exists_eq_add_one_of_ne_zero (by omega)
  have read := readNumber_numeral wellFormed negative stops
  rw [← List.append_assoc, ← text, value, front] at read
  rw [front, List.cons_append, readNode_number first, ← List.cons_append, read]
  rfl

theorem spells_text (s : String) : Spells (compact (.text s)).toList (.text s) := by
  have text : (compact (.text s)).toList = '"' :: (s.toList.flatMap escaped ++ ['"']) :=
    quote_toList s
  refine ⟨⟨'"', _, text, by decide, by decide, by decide⟩, fun fuel rest enough stops => ?_⟩
  rw [text, List.length_cons] at enough
  obtain ⟨fuel, rfl⟩ : ∃ less, fuel = less + 1 := Nat.exists_eq_add_one_of_ne_zero (by omega)
  rw [text, List.cons_append, List.append_assoc, List.singleton_append]
  exact stringNode_quote s

theorem spells_integer {n : Int} (held : Word.holds 64 n) :
    Spells (compact (.integer n)).toList (.integer n) := by
  obtain ⟨n, wellFormed, text, value⟩ := repr_numeral held
  exact spells_number wellFormed text (by rw [value]; rfl)

theorem spells_float {x : Float} (finite : x.isFinite) :
    Spells (compact (.float x)).toList (.float x) := by
  obtain ⟨n, wellFormed, text, value⟩ := number_numeral finite
  refine spells_number wellFormed text ?_
  rw [value, numberNode, if_pos finite]
  rfl

theorem spells_null : Spells (compact .null).toList .null where
  begins := ⟨_, _, rfl, by decide, by decide, by decide⟩
  read fuel rest enough _ := by
    obtain ⟨fuel, rfl⟩ : ∃ less, fuel = less + 1 :=
      Nat.exists_eq_add_one_of_ne_zero (Nat.ne_zero_of_lt enough)
    rfl

theorem spells_bool (b : Bool) : Spells (compact (.bool b)).toList (.bool b) where
  begins := by cases b <;> exact ⟨_, _, rfl, by decide, by decide, by decide⟩
  read fuel rest enough _ := by
    obtain ⟨fuel, rfl⟩ : ∃ less, fuel = less + 1 := by
      refine Nat.exists_eq_add_one_of_ne_zero ?_
      rintro rfl
      cases b <;> cases enough
    cases b <;> rfl

end Qualification.Json
