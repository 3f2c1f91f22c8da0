import Qualification.Proofs.Protocol.Reload

/-! # Where definitions come from

After any requests every entry of a cache is what a text holds that one of them brought, and
loading never touches it again. A reload therefore reports no change just if the text that it
finds is the one that the entry under its key was read from.
-/

namespace Qualification

theorem Format.ofPath_same {a b : String} (same : Path.same a b) :
    Format.ofPath a = Format.ofPath b := by
  have names : Path.names a = Path.names b := by
    simp only [Path.same, Bool.and_eq_true, beq_iff_eq] at same
    exact same.2
  simp only [Format.ofPath, Path.fileName?, names]

namespace ProtocolCache

variable {c next : ProtocolCache} {key : ProtocolKey} {path text : String} {files : FileView}
  {r : Reloaded} {requests : List Request} {q : Request} {e : LoadedProtocol}
  {own p : ProtocolDefinition}

/-- Did one of some requests bring a text? -/
def Brought (requests : List Request) (text : String) : Prop :=
  ∃ q ∈ requests, ∃ source format, q.Brings source format text

theorem Request.Brings.ofPath {format : Format} (h : q.Brings (some path) format text) :
    format = Format.ofPath path := by
  cases h <;> rfl

/-- An entry under its own key, valid, and with the digest of a text that it was read
    from. -/
structure Genuine (requests : List Request) (x : ProtocolKey × LoadedProtocol) : Prop where
  key : x.2.protocol.key = x.1
  valid : Validation.check x.2.protocol = .ok ()
  read : ∃ q ∈ requests, q.Puts x.2

theorem after_genuine (requests : List Request) :
    ∀ x ∈ (empty.after requests).entries, Genuine requests x := by
  have step : ∀ c : ProtocolCache, ∀ q ∈ requests, (∀ x ∈ c.entries, Genuine requests x) →
      ∀ x ∈ (c.serve q).2.entries, Genuine requests x := by
    intro c q asked genuine x member
    cases (serve_changes c q).mem member with
    | inl old => exact genuine x old
    | inr new =>
        obtain ⟨⟨source, format, text, brings, ofText⟩, own⟩ := new
        exact ⟨own.symm, ProtocolDefinition.parse_valid ofText.protocol, q, asked, source, format,
          text, brings, ofText⟩
  have start : ∀ x ∈ empty.entries, Genuine requests x := by simp [empty]
  exact after_keeps step start

theorem serve_grown (loads : q.loads) : (c.serve q).2.Extends c := by
  have changes : Changes q.Puts False c (c.serve q).2 := by simpa [loads] using serve_changes c q
  exact changes.grown

theorem after_grown (loads : ∀ q ∈ requests, q.loads) : (c.after requests).Extends c := by
  induction requests generalizing c with
  | nil => exact fun _ _ found => found
  | cons q rest ih =>
      obtain ⟨first, others⟩ := List.forall_mem_cons.mp loads
      intro key e found
      exact ih others key e (serve_grown first key e found)

/-- What is answered for a protocol that a text holds: what stood under its key, else the
    protocol itself, and that stands there now. -/
structure ServedFor (c next : ProtocolCache) (own p : ProtocolDefinition) : Prop where
  held : ∀ old, c.get? own.key = some old → p = old
  stands : next.get? own.key = some p

theorem ServedFor.of_grown (grown : next.Extends c) (stands : next.get? own.key = some p) :
    ServedFor c next own p := by
  refine ⟨?_, stands⟩
  intro old found
  rw [grown.get? found] at stands
  cases stands
  rfl

/-- Is an answer to a request to load what stood and stands under the keys of the texts? -/
inductive Answered (c next : ProtocolCache) : Request → Answer → Prop where
  | text {format : Format} {text : String} {own p : ProtocolDefinition} :
      ProtocolDefinition.parse format text = .ok own → ServedFor c next own p →
      Answered c next (.loadText format text) (.protocol p)
  | file {files : FileView} {path : String} {own p : ProtocolDefinition} :
      ProtocolDefinition.load files path = .ok own → ServedFor c next own p →
      Answered c next (.loadFile files path) (.protocol p)
  | folder {files : FileView} {folder : String} {paths : List String}
      {ps : List ProtocolDefinition} : protocolFiles files folder = .ok paths →
      List.Forall₂ (fun path p => ∃ own, ProtocolDefinition.load files path = .ok own ∧
        ServedFor c next own p) paths ps →
      Answered c next (.loadFolder files folder) (.protocols ps)

theorem loadFile_stands (h : c.loadFile files path = (.ok p, next)) :
    ∃ own, ProtocolDefinition.load files path = .ok own ∧ next.get? own.key = some p := by
  obtain ⟨text, read, loaded⟩ := loadFile_ok h
  obtain ⟨own, parsed, stands⟩ := loaded.served
  exact ⟨own, ProtocolDefinition.load_ok.mpr ⟨text, read, parsed⟩, stands⟩

theorem loadFiles_stand {paths : List String} {ps : List ProtocolDefinition}
    (h : loadFiles files c paths = (.ok ps, next)) :
    List.Forall₂ (fun path p => ∃ own, ProtocolDefinition.load files path = .ok own ∧
      next.get? own.key = some p) paths ps := by
  induction paths generalizing c ps with
  | nil =>
      cases h
      exact .nil
  | cons path rest ih =>
      obtain ⟨p, others, middle, first, more, rfl⟩ := loadFiles_cons_ok h
      obtain ⟨own, load, stands⟩ := loadFile_stands first
      have changes : Changes (OfFiles files rest) False middle _ :=
        loadFiles_changes fun _ member => member
      rw [more] at changes
      exact .cons ⟨own, load, changes.grown.get? stands⟩ (ih more)

theorem serve_answered {a : Answer} (loads : q.loads) (h : c.serve q = (.ok a, next)) :
    Answered c next q a := by
  have grown : next.Extends c := by
    have grown := serve_grown (c := c) loads
    rwa [h] at grown
  cases q with
  | loadText format text =>
      obtain ⟨p, answer, rfl⟩ := Loading.map_ok h
      have loaded := loadText_loaded c format text none
      rw [answer] at loaded
      obtain ⟨own, parsed, stands⟩ := loaded.served
      exact .text parsed (.of_grown grown stands)
  | loadFile files path =>
      obtain ⟨p, answer, rfl⟩ := Loading.map_ok h
      obtain ⟨own, load, stands⟩ := loadFile_stands answer
      exact .file load (.of_grown grown stands)
  | loadFolder files folder =>
      obtain ⟨ps, answer, rfl⟩ := Loading.map_ok h
      rw [loadFolder] at answer
      split at answer
      · cases answer
      · rename_i paths listed
        refine .folder listed ((loadFiles_stand answer).imp ?_)
        rintro path p ⟨own, load, stands⟩
        exact ⟨own, load, .of_grown grown stands⟩
  | reload => cases loads
  | invalidate => cases loads

/-- The entry that a reload compares the file with where nothing stands under its key: the
    first that was read from the file. -/
theorem evict_free (sorted : c.Sorted) (free : c.entry? key = none)
    (compared : (c.evict key path).1 = some e) :
    ∃ k, (k, e) ∈ c.entries ∧ e.isFrom path := by
  have first : (c.sourceKey? path).bind c.entry? = some e := by
    simpa [evict, free] using compared
  rw [Option.bind_eq_some_iff] at first
  obtain ⟨k, source, found⟩ := first
  have source : (c.entries.find? fun x => x.2.isFrom path).map (·.1) = some k := source
  rw [Option.map_eq_some_iff] at source
  obtain ⟨x, isFirst, rfl⟩ := source
  rw [entry?_of_mem sorted (List.mem_of_find?_eq_some isFirst)] at found
  cases found
  have isFrom : x.2.isFrom path := by simpa using List.find?_some isFirst
  exact ⟨x.1, List.mem_of_find?_eq_some isFirst, isFrom⟩

/-- An entry from a file and with the digest of a text is what the file holds now, if no
    other text that was brought has that digest. -/
theorem Genuine.protocol_eq (genuine : Genuine requests (key, e)) (source : e.isFrom path)
    (digest : e.digest = Sha256.digest text)
    (apart : ∀ t, Brought requests t → Sha256.digest t = Sha256.digest text → t = text)
    (parsed : ProtocolDefinition.parse (Format.ofPath path) text = .ok p) : e.protocol = p := by
  obtain ⟨q, asked, origin, format, t, brings, ofText⟩ := genuine.read
  obtain ⟨other, isOther, same⟩ : ∃ other, e.source = some other ∧ Path.same path other := by
    simpa [LoadedProtocol.isFrom, Option.any_eq_true] using source
  obtain rfl : t = text := by
    apply apart t ⟨q, asked, origin, format, brings⟩
    rw [← ofText.digest, digest]
  obtain rfl : origin = some other := ofText.source.symm.trans isOther
  have sameFormat : format = Format.ofPath path :=
    brings.ofPath.trans (Format.ofPath_same same).symm
  have read := ofText.protocol
  rw [sameFormat, parsed] at read
  cases read
  rfl

theorem reload_changed
    (h : (empty.after requests).reload files path = (.ok r, next))
    (read : files.read path = .ok text)
    (apart : ∀ t, Brought requests t → Sha256.digest t = Sha256.digest text → t = text) :
    r.changed = false ↔ ∃ e, entry? (empty.after requests) r.protocol.key = some e ∧
      e.digest = Sha256.digest text := by
  obtain ⟨_, read', parsed, changed, _⟩ := reload_ok h
  rw [read] at read'
  cases read'
  rw [changed]
  cases found : entry? (empty.after requests) r.protocol.key with
  | some e => simp [evict, found]
  | none =>
      refine iff_of_false ?_ (by simp)
      intro unchanged
      -- The entry compared with would hold the same protocol, and so stand under its key.
      obtain ⟨e, compared, digest⟩ :
          ∃ e, ((empty.after requests).evict r.protocol.key path).1 = some e ∧
            e.digest = Sha256.digest text := by
        cases compared : ((empty.after requests).evict r.protocol.key path).1 with
        | none => simp [compared] at unchanged
        | some e => exact ⟨e, rfl, by simpa [compared] using unchanged⟩
      obtain ⟨k, member, source⟩ := evict_free (after_sorted requests) found compared
      have genuine := after_genuine requests (k, e) member
      have same := genuine.protocol_eq source digest apart parsed
      have own : k = r.protocol.key := genuine.key.symm.trans (congrArg _ same)
      exact entry?_eq_none.mp found (k, e) member own

structure Faithful (requests : List Request) (c : ProtocolCache) : Prop where
  entries : ∀ x ∈ c.entries, Genuine requests x
  /-- Loading alters and removes no entry. -/
  grown : ∀ q : Request, q.loads → (c.serve q).2.Extends c
  answered : ∀ (q : Request) a next, q.loads → c.serve q = (.ok a, next) → Answered c next q a
  /-- A definition stays as long as it is not reloaded or invalidated. -/
  stable : ∀ more : List Request, (∀ q ∈ more, q.loads) → ∀ key p,
    c.get? key = some p → (c.after more).get? key = some p
  /-- A reload reports no change just if the entry under the key of the file has the digest of
      its text. -/
  changed : ∀ files path r next text, c.reload files path = (.ok r, next) →
    files.read path = .ok text →
    (∀ t, Brought requests t → Sha256.digest t = Sha256.digest text → t = text) →
    (r.changed = false ↔ ∃ e, c.entry? r.protocol.key = some e ∧ e.digest = Sha256.digest text)

theorem after_faithful (requests : List Request) : Faithful requests (empty.after requests) where
  entries := after_genuine requests
  grown _ loads := serve_grown loads
  answered _ _ _ loads h := serve_answered loads h
  stable _ loads _ _ found := (after_grown loads).get? found
  changed _ _ _ _ _ h read apart := reload_changed h read apart

/-- A file that is loaded and reloaded is not reported as changed. -/
theorem revised_unchanged : ∃ r next,
    (empty.after [.loadFile (.revised "1.0.0") "a.json"]).reload (.revised "1.0.0") "a.json" =
      (.ok r, next) ∧ r.changed = false := by
  have loaded := after_revised (c := empty) [] versions_valid.1 rfl
  have holds : (FileView.revised "1.0.0").read "a.json" =
      .ok (ProtocolDefinition.revisionText "1.0.0") := rfl
  have apart : ∀ t, Brought [.loadFile (.revised "1.0.0") "a.json"] t →
      Sha256.digest t = Sha256.digest (ProtocolDefinition.revisionText "1.0.0") →
        t = ProtocolDefinition.revisionText "1.0.0" := by
    rintro t ⟨q, asked, source, format, brings⟩ _
    obtain rfl := List.mem_singleton.mp asked
    cases brings with
    | file read =>
        rw [holds] at read
        exact (Except.ok.inj read).symm
  obtain ⟨changed, reloaded⟩ := reload_revised
    (empty.after [.loadFile (.revised "1.0.0") "a.json"]) versions_valid.1
  refine ⟨_, _, reloaded, ?_⟩
  rw [(after_faithful _).changed _ _ _ _ _ reloaded holds apart, loaded, after]
  refine ⟨.ofRevision "1.0.0" "a.json", ?_, by rw [LoadedProtocol.ofRevision]⟩
  exact entry?_put_self empty (.ofRevision "1.0.0" "a.json")

end ProtocolCache

end Qualification
