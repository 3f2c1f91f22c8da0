import Qualification.Proofs.Document.Sound
import Qualification.Document.Record
import Qualification.Document.Word

/-! # What is wrong with a sound tree

A decoder that fails on a sound tree fails for the shape of the document: a field is missing or
has a value of another type. Some of these failures do not look like it. A reader of JSON words
that meets no word fails as if there were no value, and one that meets a list with too many items
as if the text went on behind it. In YAML, a number out of range, a second entry for a field and a
tag of the document's own are told in words that do not speak of types or fields.
-/

namespace Qualification.Document

variable {α β : Type} {dialect : Dialect} {failure : Failure} {cause : Cause} {place inner : Place}
  {depth : Nat} {node : Node} {decode : Decoder α} {x : Except Failure α}

/-- A cause that is told by what the document has or lacks. -/
inductive Cause.OfShape : Cause → Prop where
  | missingField (name : String) : OfShape (.missingField name)
  | unknownVariant (name : String) (known : List String) : OfShape (.unknownVariant name known)
  | invalidType (found : Found) (expected : String) : OfShape (.invalidType found expected)
  | noForm (type : String) : OfShape (.noForm type)
  | form : OfShape Decoder.notJson

/-- A failure of a well-formed document that does not look like one. -/
inductive Disguised : Dialect → Failure → Prop where
  /-- A value that is not a word. -/
  | notWord : Disguised .json (.fault .expectedValue)
  /-- A list with more items than a record has fields. -/
  | surplus : Disguised .json (.fault .trailingCharacters)
  | outOfRange (path : String) (n : Int) (expected : String) :
      Disguised .yaml (.data path (.invalidValue (.atom (.integer n)) expected))
  | repeated (path name : String) : Disguised .yaml (.data path (.duplicateField name))
  | tagged (path : String) : Disguised .yaml (.data path
      Decoder.notBuffered)

/-- A failure of a well-formed document that has another shape. -/
inductive Misshapen : Dialect → Failure → Prop where
  | json (path : String) (cause : Cause) : Misshapen .json (.data path cause)
  | yaml (path : String) {cause : Cause} : cause.OfShape → Misshapen .yaml (.data path cause)
  | disguised {dialect : Dialect} {failure : Failure} : Disguised dialect failure →
      Misshapen dialect failure

theorem Misshapen.data (path : String) (ofShape : dialect = .yaml → cause.OfShape) :
    Misshapen dialect (.data path cause) := by
  cases dialect with
  | json => exact .json path cause
  | yaml => exact .yaml path (ofShape rfl)

/-- Whatever fails fails for the shape of the document. -/
def Judged (dialect : Dialect) (x : Except Failure α) : Prop :=
  ∀ failure, x = .error failure → Misshapen dialect failure

namespace Judged

theorem ok (a : α) : Judged dialect (.ok a) :=
  nofun

theorem error (misshapen : Misshapen dialect failure) :
    Judged dialect (.error failure : Except Failure α) := fun _ same =>
  Except.error.inj same ▸ misshapen

theorem bind {f : α → Except Failure β} (hx : Judged dialect x)
    (hf : ∀ a, x = .ok a → Judged dialect (f a)) : Judged dialect (x >>= f) := by
  cases x with
  | error failure => exact fun other same => hx other (by cases same; rfl)
  | ok a => exact hf a rfl

theorem map (f : α → β) (hx : Judged dialect x) : Judged dialect (x.map f) := fun failure failed =>
  hx failure (map_error_iff.mp failed)

theorem fail (ofShape : cause.OfShape) :
    Judged place.dialect (place.fail cause : Except Failure α) :=
  .error (.data _ fun _ => ofShape)

/-- A cause that is not of the shape is a failure of JSON text, or none of its own. -/
theorem fail_json (notYaml : place.dialect ≠ .yaml) :
    Judged place.dialect (place.fail cause : Except Failure α) :=
  .error (.data _ fun isYaml => absurd isYaml notYaml)

end Judged

/-- A decoder finds nothing wrong with sound trees but their shape, wherever the given number of
    levels is left. -/
def Decoder.Judges (depth : Nat) (decode : Decoder α) : Prop :=
  ∀ (place : Place) (node : Node), depth ≤ place.depth → place.Sees node →
    Judged place.dialect (decode place node)

/-- A sound tree of another kind is one of another type. -/
theorem judged_mismatch (sees : place.Sees node) (expected : String) :
    Judged place.dialect (mismatch place node expected : Except Failure α) := by
  unfold mismatch
  split
  · exact .fail (.invalidType _ _)
  · rename_i scalar
    cases resolved : scalar.resolve with
    | ok a => exact .fail (.invalidType _ _)
    | error cause =>
        refine .fail_json fun isYaml => ?_
        obtain ⟨a, settled, -⟩ := sees.settled isYaml
        cases resolved.symm.trans settled
  · exact .fail (.invalidType _ _)
  · exact .fail (.invalidType _ _)
  · exact absurd sees Place.Sees.not_damaged

namespace Decoder

theorem judges_text : text.Judges depth := fun place node _ sees => by
  unfold text
  split
  · exact .ok _
  · exact .ok _
  · exact judged_mismatch sees _

theorem judged_name (sees : place.Sees node) (expected : String) :
    Judged place.dialect (name expected place node) := by
  unfold name
  split
  · exact .ok _
  · exact .ok _
  · exact judged_mismatch sees _

theorem judges_float : float.Judges depth := fun place node _ sees => by
  unfold float
  split
  · split
    · exact .ok _
    · exact judged_mismatch sees _
  · exact .ok _
  · split
    · exact .ok _
    · exact judged_mismatch sees _
  · exact judged_mismatch sees _

theorem judges_natBelow (bound : Nat) (expected : String) :
    (natBelow bound expected).Judges depth := fun place node _ sees => by
  have settle (n : Int) : Judged place.dialect
      (if 0 ≤ n && n < bound then .ok n.toNat
        else place.fail (.invalidValue (.atom (.integer n)) expected)) := by
    split
    · exact .ok _
    · refine .error ?_
      cases place.dialect with
      | json => exact .json _ _
      | yaml => exact .disguised (.outOfRange _ _ _)
  unfold natBelow
  split
  · split
    · exact settle _
    · exact judged_mismatch sees _
  · split
    · exact settle _
    · exact judged_mismatch sees _
  · exact judged_mismatch sees _

theorem Judges.optional (judges : decode.Judges depth) :
    (Decoder.optional decode).Judges depth := fun place node deep sees => by
  unfold Decoder.optional
  split
  · exact .ok _
  · split
    · exact .ok _
    · exact (judges _ _ deep sees).map _
  · exact (judges _ _ deep sees).map _

theorem Judges.items (judges : decode.Judges depth) (deep : depth ≤ place.depth)
    {nodes : List Node} (sees : ∀ node ∈ nodes, place.Sees node) (index : Nat) :
    Judged place.dialect (items decode place index nodes) := by
  induction nodes generalizing index with
  | nil => exact .ok _
  | cons node rest ih =>
      obtain ⟨head, tail⟩ := List.forall_mem_cons.mp sees
      have first := judges (place.item index) _ deep (head.item index)
      exact first.bind fun _ _ => (ih tail _).bind fun _ _ => .ok _

theorem Judges.entries (judges : decode.Judges depth) (deep : depth ≤ place.depth)
    (expected : String) {nodes : List (Node × Node)}
    (sees : ∀ e ∈ nodes, place.Sees e.1 ∧ place.Sees e.2) :
    Judged place.dialect (entries decode expected place nodes) := by
  induction nodes with
  | nil => exact .ok _
  | cons entry rest ih =>
      obtain ⟨⟨key, value⟩, tail⟩ := List.forall_mem_cons.mp sees
      refine (judged_name key expected).bind fun s _ => ?_
      have first := judges (place.entry s) _ deep (value.entry s)
      exact first.bind fun _ _ => (ih tail).bind fun _ _ => .ok _

/-- A sound tree has items one level down for a reader of a sequence, or is of another type. -/
theorem judged_sequenceOf (sees : place.Sees node) (deep : depth + 1 ≤ place.depth)
    (expected : String) {f : List Node × Option Fault → Except Failure α}
    (next : ∀ nodes inner, place.Above inner → (∀ node ∈ nodes, inner.Sees node) →
      Judged place.dialect (f (nodes, none))) :
    Judged place.dialect (sequenceOf place node expected >>= f) := by
  unfold sequenceOf
  split
  · obtain ⟨rfl, inner, above, each⟩ := sees.sequence
    exact next _ inner above each
  · split
    · obtain ⟨inner, above, -⟩ := Place.exists_above sees.unbuffered (by omega)
      exact next [] inner above (List.forall_mem_nil _)
    · exact (judged_mismatch sees _).bind fun _ ok => absurd ok mismatch_ne_ok
  · exact (judged_mismatch sees _).bind fun _ ok => absurd ok mismatch_ne_ok

theorem judged_mappingOf (sees : place.Sees node) (deep : depth + 1 ≤ place.depth)
    (expected : String) {f : List (Node × Node) × Option Fault → Except Failure α}
    (next : ∀ nodes inner, place.Above inner →
      (∀ e ∈ nodes, inner.Sees e.1 ∧ inner.Sees e.2) → Judged place.dialect (f (nodes, none))) :
    Judged place.dialect (mappingOf place node expected >>= f) := by
  unfold mappingOf
  split
  · obtain ⟨rfl, inner, above, each⟩ := sees.mapping
    exact next _ inner above each
  · split
    · obtain ⟨inner, above, -⟩ := Place.exists_above sees.unbuffered (by omega)
      exact next [] inner above (List.forall_mem_nil _)
    · exact (judged_mismatch sees _).bind fun _ ok => absurd ok mismatch_ne_ok
  · exact (judged_mismatch sees _).bind fun _ ok => absurd ok mismatch_ne_ok

theorem Judges.list (judges : decode.Judges depth) :
    (Decoder.list decode).Judges (depth + 1) := fun place node deep sees => by
  refine judged_sequenceOf sees deep _ fun nodes inner above each => ?_
  have left := above.depth
  have read := judges.items (by omega) each 0
  rw [above.dialect] at read
  simp only [above.down]
  exact read.bind fun _ _ => .ok _

theorem Judges.dictionary (judges : decode.Judges depth) :
    (Decoder.dictionary decode).Judges (depth + 1) := fun place node deep sees => by
  refine judged_mappingOf sees deep _ fun nodes inner above each => ?_
  have left := above.depth
  have read := judges.entries (by omega) "a string" each
  rw [above.dialect] at read
  simp only [above.down]
  exact read.bind fun _ _ => .ok _

theorem judged_atomJson {a : Atom} (fits : place.dialect = .yaml → a.fits) :
    Judged place.dialect (atomJson place a) := by
  unfold atomJson
  split
  · exact .ok _
  · exact .ok _
  · split
    · exact .ok _
    · rename_i wide
      exact .fail_json fun isYaml => wide (fits isYaml)
  · exact .ok _
  · exact .ok _

/-- A scalar of a sound tree has a type, unless a tag names a form. -/
theorem judged_settle {scalar : Written} (sees : place.Sees (.written scalar)) {unnamed : Cause}
    (named : Judged place.dialect (place.fail unnamed : Except Failure Atom)) :
    Judged place.dialect (settle place scalar unnamed) := by
  unfold settle
  split
  · exact named
  · split
    · exact .ok _
    · rename_i cause resolved
      refine .fail_json fun isYaml => ?_
      obtain ⟨a, settled, -⟩ := sees.settled isYaml
      cases resolved.symm.trans settled

theorem fits_of_settle {scalar : Written} (sees : place.Sees (.written scalar)) {unnamed : Cause}
    {a : Atom} (h : settle place scalar unnamed = .ok a) (isYaml : place.dialect = .yaml) :
    a.fits := by
  obtain ⟨b, settled, fits⟩ := sees.settled isYaml
  unfold settle at h
  split at h
  · cases h
  · rw [settled] at h
    exact Except.ok.inj h ▸ fits

/-- A collection of a sound tree is read on, unless a tag names a form. -/
theorem judged_formless {form : Option String} {unnamed : Cause}
    (named : Judged place.dialect (place.fail unnamed : Except Failure Unit)) :
    Judged place.dialect (formless place form unnamed) := by
  unfold formless
  split
  · exact named
  · exact .ok _

mutual

theorem judged_json : ∀ (node : Node) {place : Place}, place.Sees node →
    Judged place.dialect (json place node)
  | .value _, _, sees => judged_atomJson sees.fits
  | .written _, _, sees =>
      (judged_settle sees (.fail .form)).bind fun _ settled =>
        judged_atomJson (fits_of_settle sees settled)
  | .sequence _ nodes _, _, sees => by
      obtain ⟨rfl, inner, above, each⟩ := sees.sequence
      have read := judged_jsonItems nodes each 0
      rw [above.dialect] at read
      rw [json, above.down]
      exact (judged_formless (.fail .form)).bind fun _ _ => read.bind fun _ _ => .ok _
  | .mapping _ nodes _, _, sees => by
      obtain ⟨rfl, inner, above, each⟩ := sees.mapping
      have read := judged_jsonEntries nodes each
      rw [above.dialect] at read
      rw [json, above.down]
      exact (judged_formless (.fail .form)).bind fun _ _ => read.bind fun _ _ => .ok _
  | .damaged _ _, _, sees => absurd sees Place.Sees.not_damaged

theorem judged_jsonItems : ∀ (nodes : List Node) {place : Place},
    (∀ node ∈ nodes, place.Sees node) → ∀ index,
      Judged place.dialect (jsonItems place index nodes)
  | [], _, _, _ => .ok _
  | node :: rest, place, each, index => by
      obtain ⟨head, tail⟩ := List.forall_mem_cons.mp each
      have first := judged_json node (head.item index)
      exact first.bind fun _ _ => (judged_jsonItems rest tail _).bind fun _ _ => .ok _

theorem judged_jsonEntries : ∀ (nodes : List (Node × Node)) {place : Place},
    (∀ e ∈ nodes, place.Sees e.1 ∧ place.Sees e.2) →
      Judged place.dialect (jsonEntries place nodes)
  | [], _, _ => .ok _
  | (key, node) :: rest, place, each => by
      obtain ⟨⟨isKey, value⟩, tail⟩ := List.forall_mem_cons.mp each
      refine (judged_name isKey "a string key").bind fun s _ => ?_
      have first := judged_json node (value.entry s)
      exact first.bind fun _ _ => (judged_jsonEntries rest tail).bind fun _ _ => .ok _

end

theorem judges_json : Judges depth json := fun _ node _ sees =>
  judged_json node sees

theorem judged_tagged :
    Judged place.dialect (place.fail notBuffered : Except Failure α) := by
  refine .error ?_
  cases place.dialect with
  | json => exact .json _ _
  | yaml => exact .disguised (.tagged _)

mutual

theorem judged_buffer : ∀ (node : Node) {place : Place}, place.Sees node →
    Judged place.dialect (buffer place node)
  | .value _, _, _ => .ok _
  | .written _, _, sees => (judged_settle sees judged_tagged).bind fun _ _ => .ok _
  | .sequence _ nodes _, _, sees => by
      obtain ⟨rfl, inner, above, each⟩ := sees.sequence
      have read := judged_bufferItems nodes each 0
      rw [above.dialect] at read
      rw [buffer, above.down]
      exact (judged_formless judged_tagged).bind fun _ _ => read.bind fun _ _ => .ok _
  | .mapping _ nodes _, _, sees => by
      obtain ⟨rfl, inner, above, each⟩ := sees.mapping
      have read := judged_bufferEntries nodes each
      rw [above.dialect] at read
      rw [buffer, above.down]
      exact (judged_formless judged_tagged).bind fun _ _ => read.bind fun _ _ => .ok _
  | .damaged _ _, _, sees => absurd sees Place.Sees.not_damaged

theorem judged_bufferItems : ∀ (nodes : List Node) {place : Place},
    (∀ node ∈ nodes, place.Sees node) → ∀ index,
      Judged place.dialect (bufferItems place index nodes)
  | [], _, _, _ => .ok _
  | node :: rest, place, each, index => by
      obtain ⟨head, tail⟩ := List.forall_mem_cons.mp each
      have first := judged_buffer node (head.item index)
      exact first.bind fun _ _ => (judged_bufferItems rest tail _).bind fun _ _ => .ok _

theorem judged_bufferEntries : ∀ (nodes : List (Node × Node)) {place : Place},
    (∀ e ∈ nodes, place.Sees e.1 ∧ place.Sees e.2) →
      Judged place.dialect (bufferEntries place nodes)
  | [], _, _ => .ok _
  | (key, node) :: rest, place, each => by
      obtain ⟨⟨isKey, value⟩, tail⟩ := List.forall_mem_cons.mp each
      refine (judged_buffer key isKey).bind fun settledKey _ => ?_
      have first (name : String) := judged_buffer node (value.entry name)
      exact (first _).bind fun _ _ => (judged_bufferEntries rest tail).bind fun _ _ => .ok _

end

end Decoder

namespace Words

variable {words : Words α}

theorem judged_settle (word : String) : Judged place.dialect (words.settle place word) := by
  unfold settle
  split
  · exact .ok _
  · exact .fail (.unknownVariant _ _)

theorem judged_readNothing (sees : place.Sees node) :
    Judged place.dialect (readNothing place node) := by
  unfold readNothing
  split
  · exact .ok _
  · split
    · exact .ok _
    · exact judged_mismatch sees _
  · exact judged_mismatch sees _

theorem sees_untagged {scalar : Written} {word : String} (named : scalar.tag = .named word)
    (sees : place.Sees (.written scalar)) :
    place.Sees (.written { scalar with tag := .untagged }) := by
  refine ⟨sees.unbuffered, .written fun isYaml => ?_⟩
  obtain ⟨a, settled, fits⟩ := sees.settled isYaml
  refine ⟨a, ?_, fits⟩
  rw [← settled]
  simp only [Written.resolve, named]

theorem judged_notWord (isJson : place.dialect = .json) :
    Judged place.dialect (.error (.fault .expectedValue) : Except Failure α) := by
  rw [isJson]
  exact .error (.disguised .notWord)

theorem judged_readKeyed (isJson : place.dialect = .json) {form : Option String}
    {nodes : List (Node × Node)} {cut : Option Fault}
    (sees : place.Sees (.mapping form nodes cut)) :
    Judged place.dialect (words.readKeyed place nodes cut) := by
  obtain ⟨rfl, inner, above, each⟩ := sees.mapping
  unfold readKeyed
  split
  · exact judged_notWord isJson
  · rename_i key node rest
    obtain ⟨⟨isKey, value⟩, -⟩ := List.forall_mem_cons.mp each
    have named := Decoder.judged_name isKey "variant identifier"
    have settled (word : String) : Judged inner.dialect (words.settle inner word) :=
      judged_settle word
    have content := judged_readNothing value
    rw [above.dialect] at named settled content
    rw [above.down]
    refine named.bind fun word _ => (settled word).bind fun a _ => content.bind fun _ _ => ?_
    split
    · exact .ok _
    · contradiction
    · exact judged_notWord isJson

theorem judges_read : words.read.Judges depth := fun place node _ sees => by
  unfold read
  split
  · exact judged_settle _
  · split
    · rename_i scalar _ word named
      exact (judged_settle _).bind fun _ _ =>
        (judged_readNothing (sees_untagged named sees)).bind fun _ _ => .ok _
    · exact judged_settle _
  · exact absurd sees Place.Sees.not_damaged
  · exact (judged_settle _).bind fun _ _ => (judged_readNothing sees).bind fun _ _ => .ok _
  · exact (judged_settle _).bind fun _ _ => (judged_readNothing sees).bind fun _ _ => .ok _
  · split
    · rename_i isJson
      exact judged_readKeyed isJson sees
    · exact judged_mismatch sees _
  · split
    · rename_i isJson
      exact judged_notWord isJson
    · exact judged_mismatch sees _

end Words

namespace Record

/-- The fields of a record judge, and so does what makes up a value of sound trees. -/
structure Judges (depth : Nat) (r : Record α) : Prop where
  checks : ∀ f ∈ r.fields, f.check.Judges depth
  build : ∀ {place : Place} {find : FieldLookup},
    (∀ key inner node, find key = some (inner, node) →
      inner.dialect = place.dialect ∧ depth ≤ inner.depth ∧ inner.Sees node) →
    Judged place.dialect (r.build place find)

namespace Judges

theorem pure (a : α) : Judges depth (Pure.pure a : Record α) :=
  ⟨nofun, fun _ => .ok a⟩

theorem seq {f : Record (α → β)} {r : Record α} (hf : f.Judges depth) (hr : r.Judges depth) :
    (f <*> r).Judges depth where
  checks rule member := (List.mem_append.mp member).elim (hf.checks rule) (hr.checks rule)
  build {place find} found := by
    change Judged place.dialect ((Record.apply f r).build place find)
    have function := hf.build found
    simp only [Record.apply]
    split
    · exact (hr.build found).map _
    · rename_i failure failed
      exact .error (function failure failed)

theorem map {r : Record α} (f : α → β) (hr : r.Judges depth) : (f <$> r).Judges depth :=
  (pure f).seq hr

section

variable {key : String} (judges : decode.Judges depth)
include judges

theorem field (absence : Absence) {absent : Place → Except Failure α}
    (without : ∀ place : Place, Judged place.dialect (absent place)) :
    (Record.field key decode absence absent).Judges depth where
  checks rule isField := by
    obtain rfl := List.mem_singleton.mp isField
    exact fun place node deep sees => (judges _ _ deep sees).map _
  build {place find} found := by
    simp only [Record.field]
    split
    · rename_i inner node isFound
      obtain ⟨same, deep, sees⟩ := found _ _ _ isFound
      rw [← same]
      exact judges _ _ deep sees
    · exact without place

theorem required : (Record.required key decode).Judges depth :=
  field judges _ fun _ => .fail (.missingField key)

theorem withDefault (value : α) : (Record.withDefault key decode value).Judges depth :=
  field judges _ fun _ => .ok value

theorem optionalDefault : (Record.optionalDefault key decode).Judges depth :=
  withDefault judges.optional none

end

end Judges

variable {r : Record α} {fields : List FieldRule}

/-- What is kept of the entries of a sound mapping are sound trees. -/
def Kept (depth : Nat) (dialect : Dialect) (found : List Entry) : Prop :=
  ∀ e ∈ found, e.2.1.dialect = dialect ∧ depth ≤ e.2.1.depth ∧ e.2.1.Sees e.2.2

theorem Kept.lookup {found : List Entry} (kept : Kept depth dialect found) (key : String)
    (inner : Place) (node : Node) (h : lookupIn found key = some (inner, node)) :
    inner.dialect = dialect ∧ depth ≤ inner.depth ∧ inner.Sees node := by
  obtain ⟨e, isFound, same⟩ := Option.map_eq_some_iff.mp h
  have known := kept e (List.mem_of_find?_eq_some isFound)
  rwa [same] at known

theorem Kept.cons {found : List Entry} {name : String} (deep : depth ≤ place.depth)
    (sees : place.Sees node) (kept : Kept depth place.dialect found) :
    Kept depth place.dialect ((name, place, node) :: found) :=
  List.forall_mem_cons.mpr ⟨⟨rfl, deep, sees⟩, kept⟩

/-- A second entry for a field is a failure that does not look like one. -/
theorem judged_repeated (name : String) :
    Judged place.dialect (place.fail (.duplicateField name) : Except Failure α) := by
  refine .error ?_
  cases place.dialect with
  | json => exact .json _ _
  | yaml => exact .disguised (.repeated _ _)

theorem judged_collect (checks : ∀ f ∈ fields, f.check.Judges depth) (deep : depth ≤ place.depth)
    {nodes : List (Node × Node)} (sees : ∀ e ∈ nodes, place.Sees e.1 ∧ place.Sees e.2)
    (seen : List String) :
    Judged place.dialect (collect false fields place seen nodes) := by
  induction nodes generalizing seen with
  | nil => exact .ok _
  | cons entry rest ih =>
      obtain ⟨⟨key, value⟩, tail⟩ := List.forall_mem_cons.mp sees
      refine (Decoder.judged_name key "field identifier").bind fun name _ => ?_
      split
      · rw [if_neg Bool.false_ne_true, value.sound.skip]
        exact ih tail seen
      · rename_i f isField
        split
        · exact judged_repeated name
        · have checked := checks f (List.mem_of_find?_eq_some isField) (place.entry name) _ deep
            (value.entry name)
          exact checked.bind fun _ _ => (ih tail _).bind fun _ _ => .ok _

theorem kept_of_collect (deep : depth ≤ place.depth) {nodes : List (Node × Node)}
    (sees : ∀ e ∈ nodes, place.Sees e.1 ∧ place.Sees e.2) {seen : List String}
    {found : List Entry} (h : collect false fields place seen nodes = .ok found) :
    Kept depth place.dialect found := by
  induction nodes generalizing seen found with
  | nil =>
      cases h
      exact nofun
  | cons entry rest ih =>
      obtain ⟨⟨key, value⟩, tail⟩ := List.forall_mem_cons.mp sees
      obtain ⟨name, -, h⟩ := bind_ok h
      split at h
      · rw [if_neg Bool.false_ne_true, value.sound.skip] at h
        exact ih tail h
      · split at h
        · cases h
        · obtain ⟨_, -, h⟩ := bind_ok h
          obtain ⟨others, collected, h⟩ := bind_ok h
          cases h
          exact .cons deep (value.entry name) (ih tail collected)

theorem judged_collectItems (checks : ∀ f ∈ fields, f.check.Judges depth)
    (deep : depth ≤ place.depth) {nodes : List Node} (sees : ∀ node ∈ nodes, place.Sees node)
    (index : Nat) : Judged place.dialect (collectItems place index fields nodes) := by
  induction fields generalizing index nodes with
  | nil => exact .ok _
  | cons f fields ih =>
      cases nodes with
      | nil => exact .ok _
      | cons node rest =>
          obtain ⟨check, checks⟩ := List.forall_mem_cons.mp checks
          obtain ⟨head, tail⟩ := List.forall_mem_cons.mp sees
          have checked := check (place.item index) _ deep (head.item index)
          exact checked.bind fun _ _ => (ih checks tail _).bind fun _ _ => .ok _

theorem kept_of_collectItems (deep : depth ≤ place.depth) {nodes : List Node}
    (sees : ∀ node ∈ nodes, place.Sees node) {index : Nat} {found : List Entry}
    (h : collectItems place index fields nodes = .ok found) :
    Kept depth place.dialect found := by
  induction fields generalizing index nodes found with
  | nil =>
      cases h
      exact nofun
  | cons f fields ih =>
      cases nodes with
      | nil =>
          cases h
          exact nofun
      | cons node rest =>
          obtain ⟨head, tail⟩ := List.forall_mem_cons.mp sees
          obtain ⟨_, -, h⟩ := bind_ok h
          obtain ⟨others, collected, h⟩ := bind_ok h
          cases h
          exact .cons deep (head.item index) (ih tail collected)

theorem judged_closeItems (isJson : place.dialect = .json) (unbuffered : place.buffered = false)
    (count : Nat) (nodes : List Node) :
    Judged place.dialect (closeItems place count nodes none) := by
  unfold closeItems
  split
  · rw [if_neg (by simp [unbuffered]), isJson]
    exact .error (.disguised .surplus)
  · exact .ok _

/-- A record judges if its fields do. Only JSON has records in lists. -/
theorem Judges.read (h : r.Judges depth) (name : String) :
    (r.read name).Judges (depth + 1) := fun place node deep sees => by
  unfold Record.read readAs
  split
  · split
    · exact judged_mismatch sees _
    · rename_i form nodes cut notYaml
      have isJson : place.dialect = .json := by
        cases dialect : place.dialect with
        | json => rfl
        | yaml => simp [dialect, sees.unbuffered] at notYaml
      obtain ⟨rfl, inner, above, each⟩ := sees.sequence
      have left := above.depth
      have collected := judged_collectItems h.checks (by omega) each 0
      rw [above.dialect] at collected
      rw [above.down]
      refine collected.bind fun found isFound => ?_
      have kept : Kept depth inner.dialect found :=
        kept_of_collectItems (by omega) each isFound
      rw [above.dialect] at kept
      have built := h.build kept.lookup
      split
      · split
        · exact .fail_json (by simp [isJson])
        · exact built
      · exact built.bind fun _ _ =>
          (judged_closeItems isJson sees.unbuffered _ nodes).bind fun _ _ => .ok _
  · refine Decoder.judged_mappingOf sees deep _ fun nodes inner above each => ?_
    have left := above.depth
    have collected := judged_collect h.checks (by omega) each []
    rw [above.dialect] at collected
    simp only [above.down]
    refine collected.bind fun found isFound => ?_
    have kept : Kept depth inner.dialect found := kept_of_collect (by omega) each isFound
    rw [above.dialect] at kept
    exact h.build kept.lookup

end Record

end Qualification.Document
