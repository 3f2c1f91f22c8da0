import Mathlib.Logic.Relation
import Qualification.Proofs.Protocol.Cache
import Qualification.Proofs.Refusal
import Qualification.Protocol.Service

/-! # What can change in a cache

A cache changes at single strokes only: an entry is added under a free key, or what stands
under a key is dropped. Every request is a row of such strokes. What it adds is what the
texts hold that it brings, and a request that only loads drops nothing.
-/

namespace Qualification

/-- An entry for what a text holds. -/
structure LoadedProtocol.OfText (e : LoadedProtocol) (source : Option String) (format : Format)
    (text : String) : Prop where
  source : e.source = source
  protocol : ProtocolDefinition.parse format text = .ok e.protocol
  digest : e.digest = Sha256.digest text

namespace ProtocolDefinition

variable {p : ProtocolDefinition} {format : Format} {text path : String} {files : FileView}

theorem parse_valid (h : parse format text = .ok p) : Validation.check p = .ok () := by
  rw [parse, bind_ok_iff] at h
  obtain ⟨q, _, h⟩ := h
  obtain ⟨⟨⟩, checked, same⟩ := bind_ok h
  cases same
  exact checked

theorem readFile_ok : readFile files path = .ok text ↔ files.read path = .ok text := by
  rw [readFile]
  cases files.read path <;> simp [Except.mapError]

theorem load_ok : load files path = .ok p ↔
    ∃ text, files.read path = .ok text ∧ parse (Format.ofPath path) text = .ok p := by
  simp only [load, bind_ok_iff, readFile_ok]

end ProtocolDefinition

namespace ProtocolCache

variable {c next : ProtocolCache} {format : Format} {text path : String}
  {source : Option String} {files : FileView} {p : ProtocolDefinition} {e : ProtocolError}
  {paths : List String} {q : Request} {allowed : LoadedProtocol → Prop} {drops : Prop}

/-- A change of a cache at a single stroke. -/
inductive Change (allowed : LoadedProtocol → Prop) (drops : Prop) (c : ProtocolCache) :
    ProtocolCache → Prop where
  | added (e : LoadedProtocol) :
      allowed e → c.entry? e.protocol.key = none → Change allowed drops c (c.put e)
  | dropped (key : ProtocolKey) : drops → Change allowed drops c (c.invalidate key)

abbrev Changes (allowed : LoadedProtocol → Prop) (drops : Prop) :
    ProtocolCache → ProtocolCache → Prop :=
  Relation.ReflTransGen (Change allowed drops)

theorem Changes.mono {allowed' : LoadedProtocol → Prop} (weaker : ∀ e, allowed e → allowed' e)
    (changes : Changes allowed drops c next) : Changes allowed' drops c next := by
  refine Relation.ReflTransGen.mono ?_ _ _ changes
  intro c next change
  cases change with
  | added e legal free => exact .added e (weaker e legal) free
  | dropped key may => exact .dropped key may

theorem Changes.sorted (changes : Changes allowed drops c next) (h : c.Sorted) :
    next.Sorted := by
  induction changes with
  | refl => exact h
  | tail _ change ih =>
      cases change with
      | added => exact ih.put
      | dropped => exact ih.invalidate

/-- An entry was there before, or was allowed and stands under its own key. -/
theorem Changes.mem (changes : Changes allowed drops c next)
    {x : ProtocolKey × LoadedProtocol} (h : x ∈ next.entries) :
    x ∈ c.entries ∨ allowed x.2 ∧ x.1 = x.2.protocol.key := by
  induction changes with
  | refl => exact .inl h
  | tail _ change ih =>
      cases change with
      | added e legal _ =>
          cases mem_put h with
          | inl new => exact .inr (new ▸ ⟨legal, rfl⟩)
          | inr old => exact ih old
      | dropped => exact ih (mem_invalidate.mp h).1

/-- Has a cache all entries of another one, under the same keys? -/
def Extends (next c : ProtocolCache) : Prop :=
  ∀ key e, c.entry? key = some e → next.entry? key = some e

theorem Extends.get? {key : ProtocolKey} (grown : next.Extends c) (h : c.get? key = some p) :
    next.get? key = some p := by
  rw [get?_eq_some] at h ⊢
  obtain ⟨e, found, same⟩ := h
  exact ⟨e, grown key e found, same⟩

theorem Changes.grown (changes : Changes allowed False c next) : next.Extends c := by
  induction changes with
  | refl => exact fun _ _ found => found
  | tail _ change ih =>
      cases change with
      | added e _ free =>
          intro key old found
          have different : key ≠ e.protocol.key := by
            rintro rfl
            rw [ih _ _ found] at free
            cases free
          exact (entry?_put_of_ne different).trans (ih key old found)
      | dropped _ may => exact may.elim

/-- What loading a text comes to. -/
inductive TextLoaded (c : ProtocolCache) (format : Format) (text : String)
    (source : Option String) : Loading ProtocolDefinition → Prop where
  | refused {e : ProtocolError} : ProtocolDefinition.parse format text = .error e →
      TextLoaded c format text source (.error e, c)
  /-- There is a definition under the key already, and it is the answer. -/
  | held {p : ProtocolDefinition} {kept : LoadedProtocol} :
      ProtocolDefinition.parse format text = .ok p → c.entry? p.key = some kept →
      TextLoaded c format text source (.ok kept.protocol, c)
  | new {p : ProtocolDefinition} :
      ProtocolDefinition.parse format text = .ok p → c.entry? p.key = none →
      TextLoaded c format text source (.ok p, c.put ⟨p, Sha256.digest text, source⟩)

theorem loadText_loaded (c : ProtocolCache) (format : Format) (text : String)
    (source : Option String) :
    TextLoaded c format text source (c.loadText format text source) := by
  rw [loadText]
  cases parsed : ProtocolDefinition.parse format text with
  | error e => exact .refused parsed
  | ok p =>
      cases found : c.entry? p.key with
      | none => simpa [keep, get?, found] using TextLoaded.new parsed found
      | some kept => simpa [keep, get?, found] using TextLoaded.held parsed found

theorem TextLoaded.changes {answer : Except ProtocolError ProtocolDefinition}
    (loaded : TextLoaded c format text source (answer, next)) :
    Changes (fun e => e.OfText source format text) False c next := by
  cases loaded with
  | refused => exact .refl
  | held => exact .refl
  | new parsed free => exact .single (.added _ ⟨rfl, parsed, rfl⟩ free)

theorem TextLoaded.error_same (loaded : TextLoaded c format text source (.error e, next)) :
    next = c := by
  cases loaded with
  | refused => rfl

/-- A text that is accepted leaves its key taken, and the answer is what stands there. -/
theorem TextLoaded.served {served : ProtocolDefinition}
    (loaded : TextLoaded c format text source (.ok served, next)) :
    ∃ p, ProtocolDefinition.parse format text = .ok p ∧ next.get? p.key = some served := by
  cases loaded with
  | @held p kept parsed found => exact ⟨p, parsed, get?_eq_some.mpr ⟨kept, found, rfl⟩⟩
  | new parsed _ =>
      exact ⟨served, parsed, get?_eq_some.mpr ⟨_, entry?_put_self c ⟨served, _, source⟩, rfl⟩⟩

/-- A text that is accepted leaves the cache as it was just if its key was taken before. -/
theorem TextLoaded.same_iff {served : ProtocolDefinition}
    (loaded : TextLoaded c format text source (.ok served, next)) :
    next = c ↔
      ∃ p, ProtocolDefinition.parse format text = .ok p ∧ (c.entry? p.key).isSome := by
  cases loaded with
  | @held p kept parsed found => exact iff_of_true rfl ⟨p, parsed, by simp [found]⟩
  | new parsed free =>
      constructor
      · intro same
        have put := entry?_put_self c ⟨served, Sha256.digest text, source⟩
        rw [same, free] at put
        cases put
      · rintro ⟨p, parsed', taken⟩
        rw [parsed] at parsed'
        cases parsed'
        simp [free] at taken

/-- A file is refused unread, or loaded as its text is. -/
theorem loadFile_cases (c : ProtocolCache) (files : FileView) (path : String) :
    (∃ e, c.loadFile files path = (.error e, c)) ∨ ∃ text, files.read path = .ok text ∧
      TextLoaded c (Format.ofPath path) text (some path) (c.loadFile files path) := by
  rw [loadFile]
  split
  · exact .inl ⟨_, rfl⟩
  · rename_i text read
    exact .inr ⟨text, ProtocolDefinition.readFile_ok.mp read, loadText_loaded c _ text _⟩

theorem loadFile_ok (h : c.loadFile files path = (.ok p, next)) : ∃ text,
    files.read path = .ok text ∧
      TextLoaded c (Format.ofPath path) text (some path) (.ok p, next) := by
  rcases loadFile_cases c files path with ⟨e, refused⟩ | ⟨text, read, loaded⟩
  · rw [h] at refused
    cases refused
  · exact ⟨text, read, h ▸ loaded⟩

theorem loadFile_error (h : c.loadFile files path = (.error e, next)) : next = c := by
  rcases loadFile_cases c files path with ⟨e', refused⟩ | ⟨text, _, loaded⟩
  · rw [h] at refused
    cases refused
    rfl
  · rw [h] at loaded
    exact loaded.error_same

/-- An entry for what one of some files holds. -/
def OfFiles (files : FileView) (paths : List String) (e : LoadedProtocol) : Prop :=
  ∃ path ∈ paths, ∃ text, files.read path = .ok text ∧
    e.OfText (some path) (Format.ofPath path) text

theorem loadFile_changes (member : path ∈ paths) :
    Changes (OfFiles files paths) False c (c.loadFile files path).2 := by
  rcases loadFile_cases c files path with ⟨e, refused⟩ | ⟨text, read, loaded⟩
  · rw [refused]
  · exact loaded.changes.mono fun e ofText => ⟨path, member, text, read, ofText⟩

theorem loadFiles_cons_ok {ps : List ProtocolDefinition}
    (h : loadFiles files c (path :: paths) = (.ok ps, next)) : ∃ p others middle,
      c.loadFile files path = (.ok p, middle) ∧
        loadFiles files middle paths = (.ok others, next) ∧ ps = p :: others := by
  rw [loadFiles] at h
  split at h
  · cases h
  · rename_i p middle first
    cases rest : loadFiles files middle paths with
    | mk answer last =>
        rw [rest] at h
        cases answer with
        | error e => simp [Except.map] at h
        | ok others =>
            simp only [Except.map, Prod.mk.injEq, Except.ok.injEq] at h
            obtain ⟨rfl, rfl⟩ := h
            exact ⟨p, others, middle, first, rest, rfl⟩

theorem loadFiles_changes {all : List String} (members : ∀ path ∈ paths, path ∈ all) :
    Changes (OfFiles files all) False c (loadFiles files c paths).2 := by
  induction paths generalizing c with
  | nil => exact .refl
  | cons path rest ih =>
      obtain ⟨member, others⟩ := List.forall_mem_cons.mp members
      have first : Changes (OfFiles files all) False c _ := loadFile_changes member
      rw [loadFiles]
      split
      · rename_i loaded
        rwa [loaded] at first
      · rename_i p middle loaded
        rw [loaded] at first
        exact first.trans (ih others)

theorem invalidateSource_changes (c : ProtocolCache) (path : String) :
    Changes allowed True c (c.invalidateSource path) := by
  rw [invalidateSource]
  split
  · exact .single (.dropped _ trivial)
  · exact .refl

theorem evict_changes (c : ProtocolCache) (key : ProtocolKey) (path : String) :
    Changes allowed True c (c.evict key path).2 := by
  rw [evict]
  split
  · exact .head (.dropped key trivial) (invalidateSource_changes _ path)
  · exact (invalidateSource_changes c path).trans (invalidateSource_changes _ path)

theorem entry?_invalidateSource {key : ProtocolKey} (free : c.entry? key = none) :
    entry? (c.invalidateSource path) key = none := by
  rw [entry?_eq_none] at free ⊢
  exact fun x member => free x (invalidateSource_subset member)

theorem entry?_evict (c : ProtocolCache) (key : ProtocolKey) (path : String) :
    entry? (c.evict key path).2 key = none := by
  rw [evict]
  split
  · exact entry?_invalidateSource (entry?_invalidate_self c key)
  · rename_i free
    exact entry?_invalidateSource (entry?_invalidateSource free)

/-- What a reload that is accepted finds and leaves. -/
theorem reload_ok {r : Reloaded} (h : c.reload files path = (.ok r, next)) : ∃ text,
    files.read path = .ok text ∧
      ProtocolDefinition.parse (Format.ofPath path) text = .ok r.protocol ∧
      r.changed = ((c.evict r.protocol.key path).1.all fun e => e.digest != Sha256.digest text) ∧
      next = (c.evict r.protocol.key path).2.put
        ⟨r.protocol, Sha256.digest text, some path⟩ := by
  rw [reload] at h
  split at h
  · cases h
  · rename_i text read
    split at h
    · cases h
    · rename_i p parsed
      cases h
      exact ⟨text, ProtocolDefinition.readFile_ok.mp read, parsed, rfl, rfl⟩

theorem reload_error (h : c.reload files path = (.error e, next)) : next = c := by
  rw [reload] at h
  split at h
  · cases h
    rfl
  · split at h
    · cases h
      rfl
    · cases h

theorem reload_changes (c : ProtocolCache) (files : FileView) (path : String) :
    Changes (OfFiles files [path]) True c (c.reload files path).2 := by
  cases h : c.reload files path with
  | mk answer next =>
      cases answer with
      | error e =>
          cases reload_error h
          exact .refl
      | ok r =>
          obtain ⟨text, read, parsed, _, rfl⟩ := reload_ok h
          refine .tail (evict_changes c r.protocol.key path) (.added _ ?_ (entry?_evict c _ path))
          exact ⟨path, List.mem_singleton_self path, text, read, rfl, parsed, rfl⟩

/-- Does a request bring a text to the loader, from a file if one is named? -/
inductive Request.Brings : Request → Option String → Format → String → Prop where
  | text (format : Format) (text : String) : Brings (.loadText format text) none format text
  | file {files : FileView} {path text : String} : files.read path = .ok text →
      Brings (.loadFile files path) (some path) (Format.ofPath path) text
  | folder {files : FileView} {folder path text : String} {paths : List String} :
      protocolFiles files folder = .ok paths → path ∈ paths → files.read path = .ok text →
      Brings (.loadFolder files folder) (some path) (Format.ofPath path) text
  | reload {files : FileView} {path text : String} : files.read path = .ok text →
      Brings (.reload files path) (some path) (Format.ofPath path) text

/-- Is an entry what a text holds that a request brings? -/
def Request.Puts (q : Request) (e : LoadedProtocol) : Prop :=
  ∃ source format text, q.Brings source format text ∧ e.OfText source format text

theorem serve_changes (c : ProtocolCache) (q : Request) :
    Changes q.Puts (¬ q.loads) c (c.serve q).2 := by
  have loading {allowed : LoadedProtocol → Prop} (loads : q.loads)
      (legal : ∀ e, allowed e → q.Puts e) (changes : Changes allowed False c (c.serve q).2) :
      Changes q.Puts (¬ q.loads) c (c.serve q).2 := by
    simpa [loads] using changes.mono legal
  cases q with
  | loadText format text =>
      refine loading rfl ?_ (loadText_loaded c format text none).changes
      exact fun e ofText => ⟨none, format, text, .text format text, ofText⟩
  | loadFile files path =>
      refine loading rfl ?_ (loadFile_changes (List.mem_singleton_self path))
      rintro e ⟨_, member, text, read, ofText⟩
      obtain rfl := List.mem_singleton.mp member
      exact ⟨_, _, text, .file read, ofText⟩
  | loadFolder files folder =>
      cases listed : protocolFiles files folder with
      | error e => simpa [serve, loadFolder, listed, Loading.map] using .refl
      | ok paths =>
          have changes : Changes (OfFiles files paths) False c _ :=
            loadFiles_changes fun _ member => member
          have legal : ∀ e, OfFiles files paths e →
              Request.Puts (.loadFolder files folder) e := by
            rintro e ⟨path, member, text, read, ofText⟩
            exact ⟨_, _, text, .folder listed member read, ofText⟩
          refine loading rfl legal ?_
          simpa [serve, loadFolder, listed, Loading.map] using changes
  | reload files path =>
      have changes := reload_changes c files path
      have legal : ∀ e, OfFiles files [path] e → Request.Puts (.reload files path) e := by
        rintro e ⟨_, member, text, read, ofText⟩
        obtain rfl := List.mem_singleton.mp member
        exact ⟨_, _, text, .reload read, ofText⟩
      simpa [Request.loads, serve, Loading.map] using changes.mono legal
  | invalidate key => exact .single (.dropped key nofun)

/-- What every request keeps is kept by a row of them. -/
theorem after_keeps {kept : ProtocolCache → Prop} {requests : List Request}
    (step : ∀ c, ∀ q ∈ requests, kept c → kept (c.serve q).2) (h : kept c) :
    kept (c.after requests) := by
  induction requests generalizing c with
  | nil => exact h
  | cons q rest ih =>
      obtain ⟨first, others⟩ := List.forall_mem_cons.mp fun q member c => step c q member
      exact ih (fun c q member => others q member c) (first c h)

theorem after_sorted (requests : List Request) : (empty.after requests).Sorted :=
  after_keeps (fun c q _ sorted => (serve_changes c q).sorted sorted) List.Pairwise.nil

end ProtocolCache

end Qualification
