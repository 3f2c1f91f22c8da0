import Qualification.Proofs.Protocol.Change
import Qualification.Proofs.Protocol.Document
import Qualification.Proofs.Protocol.Layout

/-! # What a refused request leaves

A request that is refused leaves a cache as it was, unless it asked for a whole folder. The
files of a folder are loaded one by one, and those before the first bad one stay loaded.
-/

namespace Qualification

theorem Loading.map_ok {α β : Type} {f : α → β} {l : Loading α} {b : β} {next : ProtocolCache}
    (h : l.map f = (.ok b, next)) : ∃ a, l = (.ok a, next) ∧ b = f a := by
  obtain ⟨answer, c⟩ := l
  cases answer with
  | error e => simp [Loading.map, Except.map] at h
  | ok a =>
      cases h
      exact ⟨a, rfl, rfl⟩

theorem Loading.map_error {α β : Type} {f : α → β} {l : Loading α} {e : ProtocolError}
    {next : ProtocolCache} (h : l.map f = (.error e, next)) : l = (.error e, next) := by
  obtain ⟨answer, c⟩ := l
  cases answer with
  | error e' =>
      cases h
      rfl
  | ok a => simp [Loading.map, Except.map] at h

namespace ProtocolCache

variable {c next : ProtocolCache} {path : String} {files : FileView} {e : ProtocolError}
  {paths : List String} {q : Request}

theorem loadFiles_first_refused (first : c.loadFile files path = (.error e, next)) :
    loadFiles files c (path :: paths) = (.error e, next) := by
  simp [loadFiles, first]

theorem loadFiles_later_refused {middle : ProtocolCache} {p : ProtocolDefinition}
    (first : c.loadFile files path = (.ok p, middle))
    (later : loadFiles files middle paths = (.error e, next)) :
    loadFiles files c (path :: paths) = (.error e, next) := by
  simp [loadFiles, first, later, Except.map]

/-- Files of which one is refused are those loaded before it, that one, and the rest. -/
theorem loadFiles_error (h : loadFiles files c paths = (.error e, next)) :
    ∃ before bad later ps, paths = before ++ bad :: later ∧
      loadFiles files c before = (.ok ps, next) ∧ next.loadFile files bad = (.error e, next) := by
  induction paths generalizing c with
  | nil => cases h
  | cons path rest ih =>
      rw [loadFiles] at h
      split at h
      · rename_i first
        cases h
        cases loadFile_error first
        exact ⟨[], path, rest, [], rfl, rfl, first⟩
      · rename_i p middle first
        cases more : loadFiles files middle rest with
        | mk answer last =>
            rw [more] at h
            cases answer with
            | ok others => simp [Except.map] at h
            | error e' =>
                simp only [Except.map, Prod.mk.injEq, Except.error.injEq] at h
                obtain ⟨rfl, rfl⟩ := h
                obtain ⟨before, bad, later, ps, rfl, loaded, refused⟩ := ih more
                refine ⟨path :: before, bad, later, p :: ps, rfl, ?_, refused⟩
                rw [loadFiles, first]
                simp [loaded, Except.map]

/-- Files that are all accepted leave the cache as it was just if all their keys were taken
    before. -/
theorem loadFiles_same_iff {ps : List ProtocolDefinition}
    (h : loadFiles files c paths = (.ok ps, next)) : next = c ↔
      ∀ path ∈ paths, ∃ p, ProtocolDefinition.load files path = .ok p ∧
        (c.entry? p.key).isSome := by
  induction paths generalizing c ps with
  | nil =>
      cases h
      simp
  | cons path rest ih =>
      obtain ⟨p, others, middle, first, more, rfl⟩ := loadFiles_cons_ok h
      obtain ⟨text, read, loaded⟩ := loadFile_ok first
      have file : middle = c ↔ ∃ p, ProtocolDefinition.load files path = .ok p ∧
          (c.entry? p.key).isSome := by
        rw [loaded.same_iff]
        simp [ProtocolDefinition.load_ok, read]
      rw [List.forall_mem_cons, ← file]
      constructor
      · intro same
        have inside : middle = c := by
          -- What a new entry adds to the cache would still be there at the end.
          rw [loaded.same_iff]
          obtain ⟨p', parsed, taken⟩ := loaded.served
          have changes : Changes (OfFiles files rest) False middle _ :=
            loadFiles_changes fun _ member => member
          have grown := changes.grown
          rw [more, same] at grown
          refine ⟨p', parsed, ?_⟩
          obtain ⟨e, found, _⟩ := get?_eq_some.mp (grown.get? taken)
          simp [found]
        rw [inside] at more
        exact ⟨inside, (ih more).mp same⟩
      · rintro ⟨inside, held⟩
        rw [inside] at more
        exact (ih more).mpr held

/-- What a request that is refused leaves of a cache. -/
structure Refused (c : ProtocolCache) (q : Request) (e : ProtocolError)
    (next : ProtocolCache) : Prop where
  /-- It is as it was, unless a whole folder was asked for. -/
  same : (∀ files folder, q ≠ .loadFolder files folder) → next = c
  /-- A folder that cannot be listed leaves it as it was. Of another one the files before
      the first bad file are loaded. -/
  folder : ∀ files folder, q = .loadFolder files folder →
    (protocolFiles files folder = .error e ∧ next = c) ∨
    ∃ before bad later ps, protocolFiles files folder = .ok (before ++ bad :: later) ∧
      loadFiles files c before = (.ok ps, next) ∧ next.loadFile files bad = (.error e, next) ∧
      (next = c ↔ ∀ path ∈ before, ∃ p, ProtocolDefinition.load files path = .ok p ∧
        (c.entry? p.key).isSome)
  /-- No entry is lost or replaced. -/
  grown : next.Extends c

theorem serve_refused (h : c.serve q = (.error e, next)) : Refused c q e next := by
  have unchanged : next = c → (∀ files folder, q ≠ .loadFolder files folder) →
      Refused c q e next := by
    rintro rfl single
    exact ⟨fun _ => rfl, fun files folder isFolder => absurd isFolder (single files folder),
      fun _ _ found => found⟩
  cases q with
  | loadText format text =>
      have loaded := loadText_loaded c format text none
      rw [Loading.map_error h] at loaded
      exact unchanged loaded.error_same nofun
  | loadFile files path => exact unchanged (loadFile_error (Loading.map_error h)) nofun
  | reload files path => exact unchanged (reload_error (Loading.map_error h)) nofun
  | invalidate key => cases h
  | loadFolder files folder =>
      have h := Loading.map_error h
      rw [loadFolder] at h
      split at h
      · rename_i e' unlisted
        cases h
        refine ⟨fun single => absurd rfl (single files folder), ?_, fun _ _ found => found⟩
        rintro _ _ ⟨⟩
        exact .inl ⟨unlisted, rfl⟩
      · rename_i paths listed
        have changes : Changes (OfFiles files paths) False c _ :=
          loadFiles_changes fun _ member => member
        rw [h] at changes
        refine ⟨fun single => absurd rfl (single files folder), ?_, changes.grown⟩
        rintro _ _ ⟨⟩
        obtain ⟨before, bad, later, ps, rfl, loaded, refused⟩ := loadFiles_error h
        exact .inr ⟨before, bad, later, ps, listed, loaded, refused, loadFiles_same_iff loaded⟩

end ProtocolCache

namespace ProtocolDefinition

/-- An illustration: a version of a protocol of two phases. -/
def revision (version : String) : ProtocolDefinition :=
  { twoPhases with version := version }

/-- An illustration: the version as it is written in a file. -/
def revisionText (version : String) : String :=
  (revision version).toJson.compact

theorem revision_writable (version : String) : (revision version).Writable := by
  refine ⟨nofun, ?_, nofun, nofun, List.Pairwise.nil, nofun, nofun⟩
  simp only [revision, twoPhases, List.forall_mem_cons]
  have step (name : String) {sequence : Nat} (fits : sequence < Word.count 32) :
      (StepDef.numbered name sequence).Writable :=
    ⟨fits, nofun⟩
  exact ⟨⟨step _ (by decide), step _ (by decide), nofun⟩, ⟨step _ (by decide), nofun⟩, nofun⟩

theorem revision_valid {version : String} (valid : Version.isValid version) :
    Validation.check (revision version) = .ok () := by
  have passed := Validation.check_ok.mp twoPhases_valid
  exact Validation.check_ok.mpr { passed with version := Validation.require_ok.mpr valid }

theorem revision_read {version : String} (valid : Version.isValid version) :
    parse .json (revisionText version) = .ok (revision version) :=
  parse_compact (revision_valid valid) (revision_writable version)

end ProtocolDefinition

/-- An illustration: what a cache holds of a version that was read from a file. -/
def LoadedProtocol.ofRevision (version path : String) : LoadedProtocol :=
  ⟨.revision version, Sha256.digest (ProtocolDefinition.revisionText version), some path⟩

/-- An illustration: a folder with a protocol and, after it, a file that is none. -/
def FileView.halfSound : FileView :=
  .ofAnswers
    [("lab/a.json", .ok (ProtocolDefinition.revisionText "1.0.0")), ("lab/b.json", .ok "[")]
    [("lab", .ok ["a.json", "b.json"])]

namespace ProtocolCache

variable {c : ProtocolCache} {files : FileView} {path : String}

/-- A file with the document of a valid protocol is loaded. -/
theorem loadFile_printed {p : ProtocolDefinition} (passed : Validation.check p = .ok ())
    (writable : p.Writable) (json : Format.ofPath path = .json)
    (read : files.read path = .ok p.toJson.compact) (free : c.entry? p.key = none) :
    c.loadFile files path = (.ok p, c.put ⟨p, Sha256.digest p.toJson.compact, some path⟩) := by
  have parsed := ProtocolDefinition.parse_compact passed writable
  simp [loadFile, ProtocolDefinition.readFile, read, Except.mapError, loadText, json, parsed,
    keep, get?, free]

theorem loadFile_revision {version : String} (valid : Version.isValid version)
    (json : Format.ofPath path = .json)
    (read : files.read path = .ok (ProtocolDefinition.revisionText version))
    (free : c.entry? (ProtocolDefinition.revision version).key = none) :
    c.loadFile files path = (.ok (.revision version), c.put (.ofRevision version path)) :=
  loadFile_printed (ProtocolDefinition.revision_valid valid)
    (ProtocolDefinition.revision_writable version) json read free

theorem halfSound_files :
    protocolFiles .halfSound "lab" = .ok ["lab/a.json", "lab/b.json"] := by
  have listed : FileView.halfSound.list "lab" = .ok ["a.json", "b.json"] := rfl
  have chosen : ["a.json", "b.json"].filter isProtocolFile = ["a.json", "b.json"] := by
    decide +kernel
  have sorted : ["a.json", "b.json"].mergeSort (fun a b => decide (a ≤ b)) =
      ["a.json", "b.json"] := List.mergeSort_of_pairwise (by decide +kernel)
  have joined : ["a.json", "b.json"].map (Path.join "lab") = ["lab/a.json", "lab/b.json"] := by
    decide +kernel
  simp only [protocolFiles, listed, chosen, sorted, joined]

theorem bracket_refused : ∃ e, ProtocolDefinition.parse .json "[" = .error e :=
  ⟨_, rfl⟩

theorem halfSound_loaded : ∃ e, empty.serve (.loadFolder .halfSound "lab") =
    (.error e, empty.put (.ofRevision "1.0.0" "lab/a.json")) := by
  have first : empty.loadFile .halfSound "lab/a.json" =
      (.ok (.revision "1.0.0"), empty.put (.ofRevision "1.0.0" "lab/a.json")) := by
    have valid : Version.isValid "1.0.0" := by decide +kernel
    have free : empty.entry? (ProtocolDefinition.revision "1.0.0").key = none := rfl
    exact loadFile_revision valid rfl rfl free
  obtain ⟨e, refused⟩ := bracket_refused
  have second (c : ProtocolCache) : c.loadFile .halfSound "lab/b.json" = (.error e, c) := by
    have read : ProtocolDefinition.readFile .halfSound "lab/b.json" = .ok "[" := rfl
    have json : Format.ofPath "lab/b.json" = .json := rfl
    simp [loadFile, read, json, loadText, refused]
  have folder : empty.loadFolder .halfSound "lab" =
      (.error e, empty.put (.ofRevision "1.0.0" "lab/a.json")) := by
    rw [loadFolder, halfSound_files]
    exact loadFiles_later_refused first (loadFiles_first_refused (second _))
  refine ⟨e, ?_⟩
  rw [serve, folder]
  rfl

/-- The file before the bad one stays loaded. -/
theorem loadFolder_halfway : ∃ e next,
    empty.serve (.loadFolder .halfSound "lab") = (.error e, next) ∧ next ≠ empty := by
  obtain ⟨e, refused⟩ := halfSound_loaded
  exact ⟨e, _, refused, nofun⟩

theorem halfSound_refused : ∃ e next,
    empty.serve (.loadFolder .halfSound "lab") = (.error e, next) ∧
      Refused empty (.loadFolder .halfSound "lab") e next := by
  obtain ⟨e, refused⟩ := halfSound_loaded
  exact ⟨e, _, refused, serve_refused refused⟩

end ProtocolCache

end Qualification
