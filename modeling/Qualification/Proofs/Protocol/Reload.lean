import Qualification.Proofs.Protocol.Loading

/-! # What a reload leaves

A file whose protocol got another identity or version between loads is the source of several
entries. A reload drops the one under the key that the file has now and one of the others,
or two of the others if there is none under that key. Whatever else was read from an earlier
content of the file is still served.
-/

namespace Qualification

/-- Was an entry read from a file? -/
def LoadedProtocol.isFrom (path : String) (e : LoadedProtocol) : Bool :=
  e.source.any (Path.same path)

namespace ProtocolCache

variable {c next : ProtocolCache} {key : ProtocolKey} {path : String} {files : FileView}
  {r : Reloaded} {x : ProtocolKey × LoadedProtocol}

/-- The entries that were read from a file and do not stand under a key, which is the one
    that the file has now. -/
def stale (c : ProtocolCache) (path : String) (key : ProtocolKey) :
    List (ProtocolKey × LoadedProtocol) :=
  c.entries.filter fun x => decide (x.1 ≠ key) && x.2.isFrom path

/-- How many stale entries a reload drops. -/
def staleDropped (c : ProtocolCache) (key : ProtocolKey) : Nat :=
  if (c.entry? key).isSome then 1 else 2

theorem invalidateSource_eq (c : ProtocolCache) (path : String) : c.invalidateSource path =
    match c.entries.find? fun x => x.2.isFrom path with
    | some x => c.invalidate x.1
    | none => c := by
  have found : c.sourceKey? path = (c.entries.find? fun x => x.2.isFrom path).map (·.1) := rfl
  rw [invalidateSource, found]
  cases c.entries.find? fun x => x.2.isFrom path <;> rfl

theorem stale_of_free (free : c.entry? key = none) :
    c.stale path key = c.entries.filter fun x => x.2.isFrom path := by
  rw [entry?_eq_none] at free
  apply List.filter_congr
  intro x member
  simp [free x member]

theorem stale_invalidate : (c.invalidate key).stale path key = c.stale path key := by
  rw [stale, invalidate, List.filter_filter]
  apply List.filter_congr
  intro x _
  by_cases here : x.1 = key <;> simp [here]

/-- Where nothing stands under the key, the first stale entry is dropped. -/
theorem stale_invalidateSource (sorted : c.Sorted) (free : c.entry? key = none) :
    (c.invalidateSource path).stale path key = (c.stale path key).drop 1 := by
  rw [stale_of_free (entry?_invalidateSource free), stale_of_free free, invalidateSource_eq]
  cases first : c.entries.find? fun x => x.2.isFrom path with
  | some x => exact filter_without_first sorted.nodup first
  | none =>
      have nothing : c.entries.filter (fun x => x.2.isFrom path) = [] := by
        rw [List.filter_eq_nil_iff]
        simpa using first
      simp [nothing]

theorem stale_evict (sorted : c.Sorted) (key : ProtocolKey) (path : String) :
    (c.evict key path).2.stale path key =
      (c.stale path key).drop (c.staleDropped key) := by
  rw [evict, staleDropped]
  -- Either way nothing stands under the key when the entries of the file are dropped.
  cases found : c.entry? key with
  | some e =>
      have free := entry?_invalidate_self c key
      simp [stale_invalidateSource sorted.invalidate free, stale_invalidate]
  | none =>
      have free : entry? (c.invalidateSource path) key = none := entry?_invalidateSource found
      simp [stale_invalidateSource sorted.invalidateSource free,
        stale_invalidateSource sorted found]

/-- Dropping an entry of a file leaves the entries of other files. -/
theorem mem_invalidateSource (sorted : c.Sorted) (member : x ∈ c.entries)
    (other : ¬ x.2.isFrom path) : x ∈ (c.invalidateSource path).entries := by
  rw [invalidateSource_eq]
  split
  · rename_i y first
    have source : y.2.isFrom path := by simpa using List.find?_some first
    rw [mem_invalidate]
    refine ⟨member, ?_⟩
    intro same
    have equal := List.inj_on_of_nodup_map sorted.nodup member
      (List.mem_of_find?_eq_some first) same
    exact other (equal ▸ source)
  · exact member

theorem mem_evict (sorted : c.Sorted) (member : x ∈ c.entries) (different : x.1 ≠ key)
    (other : ¬ x.2.isFrom path) : x ∈ (c.evict key path).2.entries := by
  rw [evict]
  split
  · exact mem_invalidateSource sorted.invalidate (mem_invalidate.mpr ⟨member, different⟩) other
  · exact mem_invalidateSource sorted.invalidateSource
      (mem_invalidateSource sorted member other) other

/-- What a reload that is accepted leaves. -/
structure Replaced (c : ProtocolCache) (files : FileView) (path : String) (r : Reloaded)
    (next : ProtocolCache) : Prop where
  /-- What the file holds now stands under its key. -/
  current : ∃ text, files.read path = .ok text ∧
    ProtocolDefinition.parse (Format.ofPath path) text = .ok r.protocol ∧
    next.entry? r.protocol.key = some ⟨r.protocol, Sha256.digest text, some path⟩
  /-- Of the stale entries the first is dropped, and the second where none was dropped under
      the key. -/
  stale : next.stale path r.protocol.key =
    (c.stale path r.protocol.key).drop (c.staleDropped r.protocol.key)
  /-- No other entry was read from the file just if all stale entries were dropped. -/
  sole : (∀ x ∈ next.entries, x.2.isFrom path → x.1 = r.protocol.key) ↔
    (c.stale path r.protocol.key).length ≤ c.staleDropped r.protocol.key
  /-- The entries of other files stay. -/
  others : ∀ x ∈ c.entries, x.1 ≠ r.protocol.key → ¬ x.2.isFrom path → x ∈ next.entries

theorem stale_eq_nil : c.stale path key = [] ↔
    ∀ x ∈ c.entries, x.2.isFrom path → x.1 = key := by
  rw [stale, List.filter_eq_nil_iff]
  constructor
  · intro none x member source
    by_contra different
    exact none x member (by simp [different, source])
  · intro alone x member
    by_cases source : x.2.isFrom path
    · simp [alone x member source]
    · simp [source]

theorem mem_put_of_ne {e : LoadedProtocol} (member : x ∈ c.entries)
    (different : x.1 ≠ e.protocol.key) : x ∈ (c.put e).entries := by
  have same : (c.put e).entries.filter (fun x => decide (x.1 ≠ e.protocol.key)) =
      c.entries.filter fun x => decide (x.1 ≠ e.protocol.key) := filter_put (by simp)
  have chosen : x ∈ c.entries.filter fun x => decide (x.1 ≠ e.protocol.key) := by
    simp [member, different]
  rw [← same] at chosen
  exact (List.mem_filter.mp chosen).1

theorem reload_replaces (requests : List Request)
    (h : (empty.after requests).reload files path = (.ok r, next)) :
    Replaced (empty.after requests) files path r next := by
  have sorted := after_sorted requests
  obtain ⟨text, read, parsed, _, rfl⟩ := reload_ok h
  have left := stale_evict sorted r.protocol.key path
  have put : (((empty.after requests).evict r.protocol.key path).2.put
      ⟨r.protocol, Sha256.digest text, some path⟩).stale path r.protocol.key =
        ((empty.after requests).evict r.protocol.key path).2.stale path r.protocol.key :=
    filter_put (by simp)
  refine ⟨⟨text, read, parsed, entry?_put_self _ _⟩, put.trans left, ?_, ?_⟩
  · rw [← stale_eq_nil, put, left, List.drop_eq_nil_iff]
  · intro x member different other
    exact mem_put_of_ne (mem_evict sorted member different other) different

end ProtocolCache

/-- An illustration: a file with some version of a protocol. -/
def FileView.revised (version : String) : FileView :=
  .ofAnswers [("a.json", .ok (ProtocolDefinition.revisionText version))] []

namespace ProtocolCache

/-- An illustration: the file is loaded three times and gets a new version in between. -/
def revisions : List Request :=
  ["1.0.0", "1.1.0", "1.2.0"].map fun version => .loadFile (.revised version) "a.json"

theorem after_revised {c : ProtocolCache} {version : String} (requests : List Request)
    (valid : Version.isValid version)
    (free : c.entry? (ProtocolDefinition.revision version).key = none) :
    c.after (.loadFile (.revised version) "a.json" :: requests) =
      (c.put (.ofRevision version "a.json")).after requests := by
  have loaded : c.loadFile (.revised version) "a.json" =
      (.ok (.revision version), c.put (.ofRevision version "a.json")) :=
    loadFile_revision valid rfl rfl free
  rw [after, serve, loaded]
  rfl

theorem reload_revised {version : String} (c : ProtocolCache) (valid : Version.isValid version) :
    ∃ changed, c.reload (.revised version) "a.json" = (.ok ⟨.revision version, changed⟩,
      (c.evict (ProtocolDefinition.revision version).key "a.json").2.put
        (.ofRevision version "a.json")) := by
  have read : ProtocolDefinition.readFile (.revised version) "a.json" =
      .ok (ProtocolDefinition.revisionText version) := rfl
  have json : Format.ofPath "a.json" = .json := rfl
  rw [reload, read]
  simp only [json, ProtocolDefinition.revision_read valid]
  exact ⟨_, rfl⟩

theorem versions_valid :
    Version.isValid "1.0.0" ∧ Version.isValid "1.1.0" ∧ Version.isValid "1.2.0" := by
  decide +kernel

/-- An illustration: the cache after that. -/
def threeVersions : ProtocolCache :=
  ((empty.put (.ofRevision "1.0.0" "a.json")).put (.ofRevision "1.1.0" "a.json")).put
    (.ofRevision "1.2.0" "a.json")

theorem revisions_after : empty.after revisions = threeVersions := by
  obtain ⟨first, second, third⟩ := versions_valid
  have free : entry? (empty.put (.ofRevision "1.0.0" "a.json"))
      (ProtocolDefinition.revision "1.1.0").key = none := by
    rw [ entry?_put_of_ne (by decide +kernel)]
    rfl
  have free' : entry? ((empty.put (.ofRevision "1.0.0" "a.json")).put
      (.ofRevision "1.1.0" "a.json")) (ProtocolDefinition.revision "1.2.0").key = none := by
    rw [ entry?_put_of_ne (by decide +kernel), entry?_put_of_ne (by decide +kernel)]
    rfl
  simp only [revisions, List.map]
  rw [after_revised _ first rfl, after_revised _ second free, after_revised _ third free', after,
    threeVersions]

theorem revisions_reloaded : ∃ r next,
    (empty.after revisions).reload (.revised "1.2.0") "a.json" = (.ok r, next) ∧
      r.protocol.key = ⟨"UV-15", "1.2.0"⟩ ∧ next.entries.map (fun x => (x.1, x.2.source)) =
        [(⟨"UV-15", "1.1.0"⟩, some "a.json"), (⟨"UV-15", "1.2.0"⟩, some "a.json")] := by
  obtain ⟨changed, reloaded⟩ := reload_revised threeVersions versions_valid.2.2
  rw [revisions_after]
  refine ⟨_, _, reloaded, rfl, ?_⟩
  decide +kernel

/-- The second version is still served after the reload of the third. -/
theorem reload_leaves_stale : ∃ r next x,
    (empty.after revisions).reload (.revised "1.2.0") "a.json" = (.ok r, next) ∧
      x ∈ next.entries ∧ x.2.source = some "a.json" ∧ x.1 ≠ r.protocol.key ∧
        next.get? x.1 = some x.2.protocol := by
  obtain ⟨r, next, reloaded, key, entries⟩ := revisions_reloaded
  have sorted : next.Sorted := by
    have changes := reload_changes (empty.after revisions) (.revised "1.2.0") "a.json"
    rw [reloaded] at changes
    exact changes.sorted (after_sorted revisions)
  obtain ⟨x, rest, split, first, _⟩ := List.map_eq_cons_iff.mp entries
  obtain ⟨version, source⟩ := Prod.mk.inj first
  have member : x ∈ next.entries := split ▸ List.mem_cons_self
  refine ⟨r, next, x, reloaded, member, source, ?_, ?_⟩
  · rw [version, key]
    decide
  · exact get?_eq_some.mpr ⟨x.2, entry?_of_mem sorted member, rfl⟩

theorem revisions_replaced : ∃ r next,
    (empty.after revisions).reload (.revised "1.2.0") "a.json" = (.ok r, next) ∧
      Replaced (empty.after revisions) (.revised "1.2.0") "a.json" r next := by
  obtain ⟨r, next, reloaded, _⟩ := revisions_reloaded
  exact ⟨r, next, reloaded, reload_replaces revisions reloaded⟩

end ProtocolCache

end Qualification
