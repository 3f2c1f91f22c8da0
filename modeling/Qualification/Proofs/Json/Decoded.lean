import Qualification.Proofs.Acceptance.Document
import Qualification.Proofs.Document.Sound

/-! # Values that are read

Whatever text a value is read from, the value can be written and read back: its numbers are
ones that JSON text can hold, the names of its objects are in order, and it has no more
levels than the reader went down. That goes for the parts of records too: what a decoder
produces at some depth is known of every part that it is used for.
-/

namespace Qualification

open Json

namespace Document

variable {α β τ : Type} {decode : Decoder α} {depth : Nat} {P : α → Prop} {Q : β → Prop}

/-- Whatever a decoder reads of a text, where so many levels are left, has the property. -/
def Decoder.Produces (decode : Decoder α) (depth : Nat) (P : α → Prop) : Prop :=
  ∀ (place : Place) (node : Node) (a : α), place.Reads depth → decode place node = .ok a → P a

namespace Decoder

theorem json_storable (node : Node) {place : Place} {v : Json} (reads : place.Reads depth)
    (h : json place node = .ok v) : v.Storable depth :=
  Sound.storable node (Sound.json node reads h) h

theorem produces_json : Produces json depth (Storable depth) :=
  fun _ node _ reads h => json_storable node reads h

namespace Produces

theorem optional (each : decode.Produces depth P) :
    (Decoder.optional decode).Produces depth fun part => ∀ a, part = some a → P a := by
  intro place node part reads h a given
  subst given
  unfold Decoder.optional at h
  split at h
  · cases h
  · split at h
    · cases h
    · obtain ⟨b, read, same⟩ := map_ok h
      exact Option.some.inj same ▸ each _ _ _ reads read
  · obtain ⟨b, read, same⟩ := map_ok h
    exact Option.some.inj same ▸ each _ _ _ reads read

theorem items (each : decode.Produces depth P) {place : Place} (reads : place.Reads depth)
    {nodes : List Node} {index : Nat} {values : List α}
    (h : Decoder.items decode place index nodes = .ok values) : ∀ a ∈ values, P a := by
  induction nodes generalizing index values with
  | nil =>
      cases h
      exact nofun
  | cons node rest ih =>
      obtain ⟨head, first, h⟩ := bind_ok h
      obtain ⟨tail, others, h⟩ := bind_ok h
      cases h
      exact List.forall_mem_cons.mpr ⟨each _ _ _ (reads.item index) first, ih others⟩

theorem list (each : decode.Produces depth P) :
    (Decoder.list decode).Produces (depth + 1) fun values => ∀ a ∈ values, P a := by
  intro place node values reads h
  obtain ⟨⟨nodes, cut⟩, _, h⟩ := bind_ok h
  obtain ⟨inner, down, h⟩ := bind_ok h
  obtain ⟨found, read, h⟩ := bind_ok h
  obtain ⟨_, _, h⟩ := bind_ok h
  cases h
  obtain ⟨_, ⟨⟩, deeper⟩ := reads.descend down
  exact each.items deeper read

theorem entries (each : decode.Produces depth P) {place : Place} (reads : place.Reads depth)
    {nodes : List (Node × Node)} {expected : String} {members : List (String × α)}
    (h : Decoder.entries decode expected place nodes = .ok members) : ∀ e ∈ members, P e.2 := by
  induction nodes generalizing members with
  | nil =>
      cases h
      exact nofun
  | cons entry rest ih =>
      obtain ⟨name, _, h⟩ := bind_ok h
      obtain ⟨value, first, h⟩ := bind_ok h
      obtain ⟨tail, others, h⟩ := bind_ok h
      cases h
      exact List.forall_mem_cons.mpr ⟨each _ _ _ (reads.entry name) first, ih others⟩

theorem dictionary (each : decode.Produces depth P) :
    (Decoder.dictionary decode).Produces (depth + 1) fun d => d.Sorted ∧ ∀ e ∈ d, P e.2 := by
  intro place node d reads h
  obtain ⟨⟨nodes, cut⟩, _, h⟩ := bind_ok h
  obtain ⟨inner, down, h⟩ := bind_ok h
  obtain ⟨members, read, h⟩ := bind_ok h
  obtain ⟨_, _, h⟩ := bind_ok h
  cases h
  obtain ⟨_, ⟨⟩, deeper⟩ := reads.descend down
  exact ⟨Dictionary.sorted_ofList members, fun e member =>
    each.entries deeper read e (Dictionary.mem_of_mem_ofList member)⟩

end Produces

/-- An object of data has at most so many levels, its own among them. -/
theorem produces_dictionary :
    (dictionary json).Produces depth fun d => Storable depth (.object d) := by
  intro place node d reads h
  have opened := h
  unfold dictionary at opened
  obtain ⟨⟨nodes, cut⟩, _, opened⟩ := bind_ok opened
  obtain ⟨inner, down, _⟩ := bind_ok opened
  obtain ⟨less, rfl, _⟩ := reads.descend down
  obtain ⟨sorted, each⟩ := Produces.dictionary produces_json _ _ _ reads h
  exact .object sorted each

end Decoder

namespace Record

/-- Whatever is built of the trees of its fields, where so many levels are left, has the
    property. -/
def Makes (r : Record α) (depth : Nat) (P : α → Prop) : Prop :=
  ∀ (place : Place) (find : FieldLookup) (a : α),
    (∀ key inner node, find key = some (inner, node) → inner.Reads depth) →
      r.build place find = .ok a → P a

namespace Makes

variable {r : Record β} {f : Record (β → α)} {make : β → α} {key : String} {part : Decoder β}

theorem pure {a : α} (h : P a) : (Record.pure a).Makes depth P := fun _ _ _ _ built =>
  Except.ok.inj built ▸ h

/-- The last field of a record, and those before it. -/
theorem seq (last : r.Makes depth Q) (others : f.Makes depth fun g => ∀ b, Q b → P (g b)) :
    (f <*> r).Makes depth P := by
  intro place find a found built
  change (Record.apply f r).build place find = .ok a at built
  simp only [Record.apply] at built
  split at built
  · rename_i g function
    obtain ⟨b, value, rfl⟩ := map_ok built
    exact others _ _ _ found function b (last _ _ _ found value)
  · cases built

/-- Nothing needs to be known of the last field. -/
theorem skip (others : f.Makes depth fun g => ∀ b, P (g b)) : (f <*> r).Makes depth P :=
  seq (Q := fun _ => True) (fun _ _ _ _ _ => trivial)
    fun place find g found built b _ => others place find g found built b

theorem first (only : r.Makes depth Q) (whole : ∀ b, Q b → P (make b)) :
    (make <$> r).Makes depth P :=
  seq only (pure whole)

theorem skipFirst (whole : ∀ b, P (make b)) : (make <$> r).Makes depth P :=
  skip (pure whole)

section

variable (each : part.Produces depth Q)
include each

theorem field (absence : Absence) {absent : Place → Except Failure β}
    (without : ∀ place b, absent place = .ok b → Q b) :
    (Record.field key part absence absent).Makes depth Q := by
  intro place find b found built
  simp only [Record.field] at built
  split at built
  · rename_i inner node isFound
    exact each _ _ _ (found _ _ _ isFound) built
  · exact without place b built

theorem required : (Record.required key part).Makes depth Q :=
  field each _ fun _ _ never => nomatch never

theorem withDefault {value : β} (own : Q value) :
    (Record.withDefault key part value).Makes depth Q :=
  field each _ fun _ _ same => Except.ok.inj same ▸ own

theorem optional : (Record.optional key part).Makes depth fun b? => ∀ b, b? = some b → Q b :=
  field each.optional _ fun _ _ same _ given => nomatch (Except.ok.inj same).trans given

theorem optionalDefault :
    (Record.optionalDefault key part).Makes depth fun b? => ∀ b, b? = some b → Q b :=
  withDefault each.optional fun _ never => nomatch never

end

end Makes

variable {strict : Bool} {fields : List FieldRule} {found : List Entry} {place : Place}

theorem reads_of_collect (reads : place.Reads depth) {nodes : List (Node × Node)}
    {seen : List String} (h : collect strict fields place seen nodes = .ok found) :
    ∀ e ∈ found, e.2.1.Reads depth := by
  induction nodes generalizing seen found with
  | nil =>
      cases h
      exact nofun
  | cons entry rest ih =>
      obtain ⟨name, _, h⟩ := bind_ok h
      split at h
      · split at h
        · cases h
        · obtain ⟨_, _, h⟩ := bind_ok h
          exact ih h
      · split at h
        · cases h
        · obtain ⟨_, _, h⟩ := bind_ok h
          obtain ⟨others, collected, h⟩ := bind_ok h
          cases h
          exact List.forall_mem_cons.mpr ⟨reads.entry name, ih collected⟩

theorem reads_of_collectItems (reads : place.Reads depth) {nodes : List Node} {index : Nat}
    (h : collectItems place index fields nodes = .ok found) :
    ∀ e ∈ found, e.2.1.Reads depth := by
  induction fields generalizing index nodes found with
  | nil =>
      cases h
      exact nofun
  | cons f fields ih =>
      cases nodes with
      | nil =>
          cases h
          exact nofun
      | cons node rest =>
          obtain ⟨_, _, h⟩ := bind_ok h
          obtain ⟨others, collected, h⟩ := bind_ok h
          cases h
          exact List.forall_mem_cons.mpr ⟨reads.item index, ih collected⟩

theorem reads_of_lookup (each : ∀ e ∈ found, e.2.1.Reads depth) (key : String) (inner : Place)
    (node : Node) (h : lookupIn found key = some (inner, node)) : inner.Reads depth := by
  obtain ⟨e, isFound, same⟩ := Option.map_eq_some_iff.mp h
  have known := each e (List.mem_of_find?_eq_some isFound)
  rwa [same] at known

/-- What is read of a record is built of trees one level down. -/
theorem Makes.readAs {r : Record α} (makes : r.Makes depth P) (expected : String)
    (strict : Bool) : (r.readAs expected strict).Produces (depth + 1) P := by
  intro place node a reads h
  unfold Record.readAs at h
  split at h
  · split at h
    · exact absurd h mismatch_ne_ok
    · obtain ⟨inner, down, h⟩ := bind_ok h
      obtain ⟨_, ⟨⟩, deeper⟩ := reads.descend down
      obtain ⟨found, collected, h⟩ := bind_ok h
      have known := reads_of_lookup (reads_of_collectItems deeper collected)
      split at h
      · obtain ⟨_, _, h⟩ := bind_ok h
        split at h
        · cases h
        · exact makes _ _ _ known h
      · obtain ⟨b, built, h⟩ := bind_ok h
        obtain ⟨_, _, h⟩ := bind_ok h
        cases h
        exact makes _ _ _ known built
  · obtain ⟨⟨nodes, cut⟩, _, h⟩ := bind_ok h
    obtain ⟨inner, down, h⟩ := bind_ok h
    obtain ⟨_, ⟨⟩, deeper⟩ := reads.descend down
    obtain ⟨found, collected, h⟩ := bind_ok h
    obtain ⟨_, _, h⟩ := bind_ok h
    exact makes _ _ _ (reads_of_lookup (reads_of_collect deeper collected)) h

end Record

namespace Tagged.Adjacent

/-- How far a tagged value was read: what was set aside is sound, and what is done has the
    property. -/
def Known (depth : Nat) (P : α → Prop) : Progress τ α → Prop
  | .start | .named _ => True
  | .held node => Sound .json depth node
  | .done a => P a

variable {t : Tagged.Adjacent τ α}

section

variable (content : ∀ {form : τ} {place : Place} {node : Node} {a : α},
    Sound .json depth node ∨ place.Reads depth → t.content form place node = .ok a → P a)
include content

theorem known_readEntries {place : Place} (reads : place.Reads depth) {cut : Option Fault}
    {nodes : List (Node × Node)} {progress : Progress τ α} {a : α}
    (known : Known depth P progress) (h : t.readEntries place cut progress nodes = .ok a) :
    P a := by
  induction nodes generalizing progress with
  | nil =>
      obtain ⟨_, _, h⟩ := bind_ok h
      cases progress with
      | start | named | held => cases h
      | done b =>
          cases h
          exact known
  | cons entry rest ih =>
      obtain ⟨name, _, h⟩ := bind_ok h
      split at h
      · cases progress with
        | named | done => cases h
        | start =>
            obtain ⟨form, _, h⟩ := bind_ok h
            exact ih (show Known depth P (.named form) from trivial) h
        | held node =>
            obtain ⟨form, _, h⟩ := bind_ok h
            obtain ⟨value, read, h⟩ := bind_ok h
            have known : Known depth P (.done value : Progress τ α) := content (.inl known) read
            exact ih known h
      · split at h
        · cases progress with
          | held | done => cases h
          | start =>
              obtain ⟨settled, aside, h⟩ := bind_ok h
              have known : Known depth P (.held settled : Progress τ α) :=
                Sound.buffer _ (reads.entry name) aside
              exact ih known h
          | named form =>
              obtain ⟨value, read, h⟩ := bind_ok h
              have known : Known depth P (.done value : Progress τ α) :=
                content (.inr (reads.entry name)) read
              exact ih known h
        · obtain ⟨_, _, h⟩ := bind_ok h
          exact ih known h

theorem produces : t.read.Produces (depth + 1) P := by
  intro place node a reads h
  unfold read at h
  split at h
  · obtain ⟨inner, down, h⟩ := bind_ok h
    obtain ⟨_, ⟨⟩, deeper⟩ := reads.descend down
    split at h
    · obtain ⟨_, _, h⟩ := bind_ok h
      cases h
    · obtain ⟨form, _, h⟩ := bind_ok h
      split at h
      · obtain ⟨_, _, h⟩ := bind_ok h
        cases h
      · obtain ⟨value, read, h⟩ := bind_ok h
        obtain ⟨_, _, h⟩ := bind_ok h
        cases h
        exact content (.inr (deeper.item 1)) read
  · obtain ⟨⟨nodes, cut⟩, _, h⟩ := bind_ok h
    obtain ⟨inner, down, h⟩ := bind_ok h
    obtain ⟨_, ⟨⟩, deeper⟩ := reads.descend down
    exact known_readEntries content deeper (show Known depth P .start from trivial) h

end

end Tagged.Adjacent

/-- What is read of a text at its root has the property. -/
theorem Source.decoded (dialect : Dialect) {source : Source} {a : α}
    (produces : decode.Produces (Place.root dialect).depth P)
    (read : source.decode dialect decode = .ok a) : P a := by
  obtain ⟨_, given, read⟩ := bind_ok read
  obtain ⟨_, _, read⟩ := bind_ok read
  cases read
  exact produces _ _ _ (Place.reads_root dialect) given

end Document

open Document

/-- A value that is no JSON, or one of at most so many levels. -/
def MeasuredValue.Within (depth : Nat) (v : MeasuredValue) : Prop :=
  ∀ w, v = .json w → w.Storable depth

theorem MeasuredValue.Within.mono {v : MeasuredValue} {less depth : Nat} (h : v.Within less)
    (enough : less ≤ depth) : v.Within depth :=
  fun w isJson => (h w isJson).mono enough

theorem MeasuredValue.produces_decode :
    MeasuredValue.decode.Produces (depth + 1) (MeasuredValue.Within depth) := by
  refine Tagged.Adjacent.produces fun {form place node a} known read w same => ?_
  subst same
  cases form with
  | numeric | text | boolean =>
      obtain ⟨_, _, other⟩ := map_ok read
      cases other
  | json =>
      obtain ⟨v, isJson, same⟩ := map_ok read
      obtain rfl := MeasuredValue.json.inj same
      rcases known with sound | reads
      · exact Sound.storable node sound isJson
      · exact Decoder.json_storable node reads isJson

/-- The value of a verdict stands two levels deeper than its document. -/
theorem Evaluation.produces_decode : Evaluation.decode.Produces (depth + 2)
    fun e => ∀ v, e.value = some v → v.Within depth :=
  Record.Makes.readAs (.skip <| .seq (.optional MeasuredValue.produces_decode) <| .skip <|
    .skip <| .skip <| .skipFirst fun _ _ _ _ _ known _ => known) _ _

namespace Json

variable {α : Type} {decode : Decoder α} {P : α → Prop} {a : α} {s : String}

theorem decoded (produces : decode.Produces levels P) (read : Json.decode decode s = .ok a) :
    P a :=
  Source.decoded .json produces read

theorem ofColumn_ok (h : ofColumn? decode s = some a) : Json.decode decode s = .ok a := by
  cases read : Json.decode decode s with
  | error e => simp [ofColumn?, read, Except.toOption] at h
  | ok b =>
      simp only [ofColumn?, read, Except.toOption, Option.some.injEq] at h
      rw [h]

theorem storable_ofColumn {v : Json} (h : ofColumn? Decoder.json s = some v) :
    v.Storable levels :=
  decoded Decoder.produces_json (ofColumn_ok h)

theorem storable_ofColumn_dictionary {d : Dictionary Json}
    (h : ofColumn? (Decoder.dictionary Decoder.json) s = some d) : Storable levels (.object d) :=
  decoded (P := fun d => Storable levels (.object d)) Decoder.produces_dictionary (ofColumn_ok h)

end Json

end Qualification
