import Mathlib.Data.Set.Card
import TrackedSections.Proofs.Merge.PullEach

/-!
# One reading of each source

A cache is used while the disk changes: documents are got from it, and targets update from it. `Fills` says what
any of this may do to a cache, `Use.Gets` which documents are got for which absolute paths on the way, and
`Use.fills` that the former is so for the latter. Targets are documents of their own: what they take is copied,
so that nothing that is done to them afterwards reaches the cache. Read `stable_snapshot` first.
-/

namespace TrackedSections

open Effect

namespace SourceCache

variable {cache cache' cache'' : SourceCache} {view : View} {written : Text} {path : Path} {d : Document}
  {got got' : Path → Document → Prop}

/-! ## What a cache keeps -/

/-- The absolute paths of the documents in a cache. -/
def paths (cache : SourceCache) : List Path := cache.documents.map Prod.fst

/-- What is read from the disk at an absolute path with the settings of a cache. -/
def readingAt (cache : SourceCache) (view : View) (path : Path) : Except Failure Document :=
  ((Document.load path.toText cache.commentPrefix cache.config).report view).1

theorem lookup_eq_none_iff : cache.documents.lookup path = none ↔ path ∉ cache.paths := by
  rw [List.lookup_eq_none_iff, paths, List.mem_map]
  exact ⟨fun h ⟨entry, hmem, heq⟩ => by simpa [heq] using h entry hmem,
    fun h entry hmem => by simpa using fun heq => h ⟨entry, hmem, heq.symm⟩⟩

/-- `cache.Fills cache' got` says that `cache` turns into `cache'` while the documents that `got` has for absolute
paths are got: what it had stays in its order, what is got is kept, and what is new was got and is a reading. -/
structure Fills (cache cache' : SourceCache) (got : Path → Document → Prop) : Prop where
  settings_eq : cache'.commentPrefix = cache.commentPrefix ∧ cache'.config = cache.config
  documents_kept : cache.documents <+: cache'.documents
  nodup : cache.paths.Nodup → cache'.paths.Nodup
  lookup_of_got : ∀ path d, got path d → cache'.documents.lookup path = some d
  got_of_new : ∀ path d, (path, d) ∈ cache'.documents →
    (path, d) ∈ cache.documents ∨ got path d ∧ ∃ view, cache.readingAt view path = .ok d

/-- A cache stays as it is when nothing is got. -/
theorem fills_nothing (cache : SourceCache) (h : ∀ path d, ¬ got path d) : cache.Fills cache got :=
  ⟨⟨rfl, rfl⟩, List.prefix_rfl, id, fun path d hgot => absurd hgot (h path d), fun _ _ => .inl⟩

/-- What a cache keeps is there however it fills. -/
theorem Fills.lookup_eq (h : cache.Fills cache' got) (hlookup : cache.documents.lookup path = some d) :
    cache'.documents.lookup path = some d := by
  obtain ⟨added, hadded⟩ := h.documents_kept
  rw [← hadded, List.lookup_append, hlookup, Option.some_or]

theorem Fills.reading_eq (h : cache.Fills cache' got) : cache'.readingAt = cache.readingAt := by
  unfold readingAt
  rw [h.settings_eq.1, h.settings_eq.2]

/-- A cache that fills twice fills with what is got either time. -/
theorem Fills.trans (h : cache.Fills cache' got) (h' : cache'.Fills cache'' got') :
    cache.Fills cache'' fun path d => got path d ∨ got' path d where
  settings_eq := ⟨h'.settings_eq.1.trans h.settings_eq.1, h'.settings_eq.2.trans h.settings_eq.2⟩
  documents_kept := h.documents_kept.trans h'.documents_kept
  nodup := h'.nodup ∘ h.nodup
  lookup_of_got path d := Or.rec (fun hgot => h'.lookup_eq (h.lookup_of_got path d hgot))
    (h'.lookup_of_got path d)
  got_of_new path d hmem := by
    rcases h'.got_of_new path d hmem with hmem | ⟨hgot, hread⟩
    · exact (h.got_of_new path d hmem).imp_right fun ⟨hgot, hread⟩ => ⟨.inl hgot, hread⟩
    · exact .inr ⟨.inr hgot, h.reading_eq ▸ hread⟩

/-- What is got may be said in another way. -/
theorem Fills.congr (h : cache.Fills cache' got) (hgot : ∀ path d, got path d ↔ got' path d) :
    cache.Fills cache' got' := by
  obtain rfl : got = got' := funext fun path => funext fun d => propext (hgot path d)
  exact h

/-- A document that a cache gives, it keeps. -/
theorem fills_keeping (h : cache.documentAt view path = .ok d) :
    cache.Fills (cache.keeping path d) fun path' d' => path' = path ∧ d' = d := by
  unfold keeping
  unfold documentAt at h
  cases hlookup : cache.documents.lookup path with
  | some d' =>
      rw [hlookup] at h
      obtain rfl := Except.ok.inj h
      show cache.Fills cache _
      exact ⟨⟨rfl, rfl⟩, List.prefix_rfl, id, fun _ _ ⟨hpath, hd⟩ => hpath ▸ hd ▸ hlookup, fun _ _ => .inl⟩
  | none =>
      rw [hlookup] at h
      show cache.Fills { cache with documents := cache.documents ++ [(path, d)] } _
      constructor
      case settings_eq => exact ⟨rfl, rfl⟩
      case documents_kept => exact List.prefix_append _ _
      case nodup =>
        intro hnodup
        show ((cache.documents ++ [(path, d)]).map Prod.fst).Nodup
        rw [List.map_append]
        exact hnodup.append (List.nodup_singleton path)
          (List.disjoint_singleton.2 (lookup_eq_none_iff.1 hlookup))
      case lookup_of_got =>
        rintro _ _ ⟨rfl, rfl⟩
        rw [List.lookup_append, hlookup, Option.none_or, List.lookup_cons, beq_self_eq_true]
      case got_of_new =>
        intro path' d' hmem
        refine (List.mem_append.1 hmem).imp_right fun hmem => ?_
        obtain ⟨rfl, rfl⟩ := Prod.mk.inj (List.mem_singleton.1 hmem)
        exact ⟨⟨rfl, rfl⟩, view, h⟩

/-- A get that gives a document keeps it under its absolute path. A get that fails leaves the cache. -/
theorem fills_get (cache : SourceCache) (view : View) (written : Text) :
    let result := ((cache.get written).report view).1
    cache.Fills ((result.map Prod.snd).toOption.getD cache) fun path d =>
      keyOf view written = .ok path ∧ result.map Prod.fst = .ok d := by
  intro result
  cases hresult : result with
  | error failure => exact fills_nothing cache fun _ _ h => nomatch h.2
  | ok got =>
      obtain ⟨d, cache'⟩ := got
      obtain ⟨path, hkey, hdocument, rfl⟩ := ok_of_get hresult
      refine (fills_keeping hdocument).congr fun path' d' => ?_
      rw [hkey]
      exact ⟨fun ⟨hpath, hd⟩ => ⟨hpath ▸ rfl, hd ▸ rfl⟩,
        fun ⟨hpath, hd⟩ => ⟨(Except.ok.inj hpath).symm, (Except.ok.inj hd).symm⟩⟩

end SourceCache

namespace Pulling

open SourceCache

variable {view : View} {wanted : List (Option Text)} {s s' : Tracked} {pull pull' : Pull} {path : Path}
  {d d' : Document}

/-! ## What is got while a target pulls -/

/-- `Finds view pull written excuse path d` says that the search for a source that the target of a pull names
gets the document `d` by its absolute path. -/
def Finds (view : View) (pull : Pull) (written : Text) (excuse : Failure → Notice) (path : Path)
    (d : Document) : Prop :=
  (placeOf view pull.target.path written).bind (fun place => keyOf view place.toText) = .ok path ∧
    (outcome (source? written excuse) view pull).1 = .ok (some d)

/-- The search for a source fills the cache with what it finds. -/
theorem fills_source (written : Text) (excuse : Failure → Notice) (view : View) (pull : Pull) :
    pull.cache.Fills (outcome (source? written excuse) view pull).2.cache
      (Finds view pull written excuse) := by
  unfold Finds
  rcases source_cases written excuse view pull with
    ⟨place, path, d, notices, hplace, hkey, hdocument, hsource⟩ | ⟨failure, notices, -, hsource⟩
  · rw [hsource, hplace]
    refine (fills_keeping hdocument).congr fun path' d' => ?_
    show _ ↔ keyOf view place.toText = .ok path' ∧ _
    rw [hkey]
    exact ⟨fun ⟨hpath, hd⟩ => ⟨hpath ▸ rfl, hd ▸ rfl⟩,
      fun ⟨hpath, hd⟩ => ⟨(Except.ok.inj hpath).symm, (Option.some.inj (Except.ok.inj hd)).symm⟩⟩
  · rw [hsource]
    refine fills_nothing _ fun path d h => ?_
    have hnone := h.2
    split at hnone <;> cases hnone

/-- What is pulled from a document that was found does not touch the cache. -/
theorem cache_pull_from (s : Tracked) (d : Document) (view : View) (pull : Pull) :
    (outcome (pullFrom s d) view pull).2.cache = pull.cache := by
  unfold pullFrom
  split
  · rfl
  · split <;> rfl

/-- What is done with a source that was found, or not, fills the cache no further. -/
theorem fills_source_bind {written : Text} {excuse : Failure → Notice} {f : Option Document → Pulling Unit}
    (hf : ∀ found pull', (outcome (f found) view pull').2.cache = pull'.cache) :
    pull.cache.Fills (outcome (source? written excuse >>= f) view pull).2.cache
      (Finds view pull written excuse) := by
  have hsource := fills_source written excuse view pull
  have hcache : (outcome (source? written excuse >>= f) view pull).2.cache =
      (outcome (source? written excuse) view pull).2.cache := by
    rw [outcome_bind]
    rcases outcome (source? written excuse) view pull with ⟨failure | found, pull'⟩
    · rfl
    · exact hf found pull'
  rwa [hcache]

/-- A section that pulls fills the cache with the source that it names, if it is wanted. -/
theorem fills_pull_section (wanted : List (Option Text)) (s : Tracked) (view : View) (pull : Pull) :
    pull.cache.Fills (outcome (pullSection wanted s) view pull).2.cache fun path d =>
      isWanted wanted s = true ∧ ∃ written, s.source = some written ∧
        Finds view pull written (.sectionSourceFailed written) path d := by
  unfold pullSection
  cases s.source with
  | none => exact fills_nothing _ fun _ _ ⟨_, _, h, _⟩ => nomatch h
  | some written =>
      dsimp only
      split
      · next hwanted =>
          refine (fills_source_bind fun found pull' => ?_).congr fun path d => ?_
          · cases found with
            | none => rfl
            | some d => exact cache_pull_from s d view pull'
          · exact ⟨fun h => ⟨hwanted, written, rfl, h⟩, fun ⟨_, _, hnames, h⟩ => Option.some.inj hnames ▸ h⟩
      · next hwanted => exact fills_nothing _ fun _ _ h => absurd h.1 hwanted

/-- Sections that pull in turn, each when the disk looks as its own view shows it. -/
def pullInTurn (wanted : List (Option Text)) : List (View × Tracked) → Pull → Except Failure Unit × Pull
  | [], pull => (.ok (), pull)
  | (view, s) :: rest, pull =>
    match outcome (pullSection wanted s) view pull with
    | (.ok (), pull') => pullInTurn wanted rest pull'
    | (.error failure, pull') => (.error failure, pull')

/-- A target without a sidecar updates by letting its sections pull in turn, while the disk stays as it is. -/
theorem in_turn_eq_update {target : Document} (hsidecar : target.sidecar = none) (cache : SourceCache)
    (wanted : List (Option Text)) (view : View) :
    pullInTurn wanted (target.tracked.map fun s => (view, s)) ⟨target, cache, false, []⟩ =
      target.update cache wanted none view := by
  rw [update_eq hsidecar]
  generalize (⟨target, cache, false, []⟩ : Pull) = pull
  induction target.tracked generalizing pull with
  | nil => rfl
  | cons s rest ih =>
      show _ = outcome (pullSection wanted s >>= fun _ => rest.forM (pullSection wanted)) view pull
      rw [outcome_bind, List.map_cons, pullInTurn]
      rcases outcome (pullSection wanted s) view pull with ⟨failure | _, pull'⟩
      · rfl
      · exact ih pull'

/-- `Sees wanted turns pull s path d` says that the section `s` gets the document `d` by the absolute path of its
source when its turn comes. -/
inductive Sees (wanted : List (Option Text)) :
    List (View × Tracked) → Pull → Tracked → Path → Document → Prop where
  | here {view : View} {s : Tracked} {rest : List (View × Tracked)} {pull : Pull} {written : Text}
      {path : Path} {d : Document} (hwanted : isWanted wanted s = true) (hnames : s.source = some written)
      (hfinds : Finds view pull written (.sectionSourceFailed written) path d) :
      Sees wanted ((view, s) :: rest) pull s path d
  | later {view : View} {first s : Tracked} {rest : List (View × Tracked)} {pull pull' : Pull}
      {path : Path} {d : Document} (hpulls : outcome (pullSection wanted first) view pull = (.ok (), pull'))
      (hsees : Sees wanted rest pull' s path d) : Sees wanted ((view, first) :: rest) pull s path d

/-- Sections that pull in turn fill the cache with what they see. -/
theorem fills_in_turn (wanted : List (Option Text)) (turns : List (View × Tracked)) (pull : Pull) :
    pull.cache.Fills (pullInTurn wanted turns pull).2.cache fun path d =>
      ∃ s, Sees wanted turns pull s path d := by
  induction turns generalizing pull with
  | nil => exact fills_nothing _ fun _ _ ⟨_, h⟩ => nomatch h
  | cons turn rest ih =>
      obtain ⟨view, s⟩ := turn
      have hfirst := fills_pull_section wanted s view pull
      rw [pullInTurn]
      cases hrun : outcome (pullSection wanted s) view pull with
      | mk result pull' =>
          rw [hrun] at hfirst
          cases result with
          | error failure =>
              refine hfirst.congr fun path d => ⟨?_, ?_⟩
              · rintro ⟨hwanted, _, hnames, hfinds⟩
                exact ⟨s, .here hwanted hnames hfinds⟩
              · rintro ⟨_, hsees⟩
                cases hsees with
                | here hwanted hnames hfinds => exact ⟨hwanted, _, hnames, hfinds⟩
                | later hpulls _ => cases hrun.symm.trans hpulls
          | ok _ =>
              refine (hfirst.trans (ih pull')).congr fun path d => ⟨?_, ?_⟩
              · rintro (⟨hwanted, _, hnames, hfinds⟩ | ⟨s', hsees⟩)
                · exact ⟨s, .here hwanted hnames hfinds⟩
                · exact ⟨s', .later hrun hsees⟩
              · rintro ⟨s', hsees⟩
                cases hsees with
                | here hwanted hnames hfinds => exact .inl ⟨hwanted, _, hnames, hfinds⟩
                | later hpulls hsees =>
                    obtain rfl := (Prod.mk.inj (hrun.symm.trans hpulls)).2
                    exact .inr ⟨s', hsees⟩

/-- A file with a sidecar fills the cache with the source of its content. -/
theorem fills_pull_sidecar (sidecar : Sidecar) (view : View) (pull : Pull) :
    pull.cache.Fills (outcome (pullSidecar sidecar) view pull).2.cache fun path d =>
      sidecar.isModified = false ∧ ∃ written, sidecar.source = some written ∧ written ≠ [] ∧
        Finds view pull written (.sidecarSourceFailed written) path d := by
  rw [pullSidecar, outcome_bind, Effect.outcome_get]
  dsimp only
  split
  · next hmodified => exact fills_nothing _ fun _ _ h => by simp [hmodified] at h
  · next hunmodified =>
      split
      · next hnone => exact fills_nothing _ fun _ _ ⟨_, _, h, _⟩ => by cases hnone.symm.trans h
      · next hnone =>
          exact fills_nothing _ fun _ _ ⟨_, _, h, hwritten, _⟩ =>
            hwritten (Option.some.inj (hnone.symm.trans h)).symm
      · next written hwritten hnames =>
          refine (fills_source_bind fun found pull' => ?_).congr fun path d => ?_
          · cases found <;> rfl
          · exact ⟨fun h => ⟨Bool.eq_false_iff.2 hunmodified, written, hnames, hwritten, h⟩,
              fun ⟨_, _, hnames', _, h⟩ => Option.some.inj (hnames.symm.trans hnames') ▸ h⟩

end Pulling

namespace SourceCache

open Pulling Document

variable {cache start : SourceCache} {path : Path} {d d' : Document} {got : Path → Document → Prop}

/-! ## Sessions -/

/-- One use of a cache, with the disk and the surroundings as they are then: a document is got, or a target is
updated. The sections of a target may also pull in turn while the disk changes between them; without such
changes, this is an update (`in_turn_eq_update`). -/
inductive Use where
  | get (view : View) (written : Text)
  | update (view : View) (target : Document) (wanted : List (Option Text)) (source : Option Document)
  | pull (target : Document) (wanted : List (Option Text)) (turns : List (View × Tracked))

/-- The cache after a use. What is got comes with a cache, and a get that fails has none to go on with. -/
def Use.after (cache : SourceCache) : Use → SourceCache
  | .get view written => ((((cache.get written).report view).1.map Prod.snd).toOption).getD cache
  | .update view target wanted source => (target.update cache wanted source view).2.cache
  | .pull target wanted turns => (pullInTurn wanted turns ⟨target, cache, false, []⟩).2.cache

/-- `use.Gets cache path d` says that the document `d` is got by the absolute path `path` in the course of the
use. -/
inductive Use.Gets (cache : SourceCache) : Use → Path → Document → Prop where
  | get {view : View} {written : Text} {path : Path} {d : Document} (hkey : keyOf view written = .ok path)
      (hget : ((cache.get written).report view).1.map Prod.fst = .ok d) : Gets cache (.get view written) path d
  | sidecar {view : View} {target : Document} {wanted : List (Option Text)} {s : Sidecar} {written : Text}
      {path : Path} {d : Document} (hsidecar : target.sidecar = some s) (hunmodified : s.isModified = false)
      (hnames : s.source = some written) (hwritten : written ≠ [])
      (hfinds : Finds view ⟨target, cache, false, []⟩ written (.sidecarSourceFailed written) path d) :
      Gets cache (.update view target wanted none) path d
  | sections {view : View} {target : Document} {wanted : List (Option Text)} {s : Tracked} {path : Path}
      {d : Document} (hsidecar : target.sidecar = none)
      (hsees : Sees wanted (target.tracked.map fun s => (view, s)) ⟨target, cache, false, []⟩ s path d) :
      Gets cache (.update view target wanted none) path d
  | pull {target : Document} {wanted : List (Option Text)} {turns : List (View × Tracked)} {s : Tracked}
      {path : Path} {d : Document} (hsees : Sees wanted turns ⟨target, cache, false, []⟩ s path d) :
      Gets cache (.pull target wanted turns) path d

/-- A target that updates fills the cache with what is got on the way. -/
theorem fills_update (cache : SourceCache) (view : View) (target : Document) (wanted : List (Option Text))
    (source : Option Document) :
    cache.Fills (target.update cache wanted source view).2.cache
      (Use.Gets cache (.update view target wanted source)) := by
  cases source with
  | some source =>
      rw [update_from_eq]
      exact fills_nothing cache fun _ _ h => nomatch h
  | none =>
      cases hsidecar : target.sidecar with
      | some s =>
          rw [update_sidecar_eq hsidecar]
          refine (fills_pull_sidecar s view ⟨target, cache, false, []⟩).congr fun path d => ⟨?_, ?_⟩
          · rintro ⟨hunmodified, written, hnames, hwritten, hfinds⟩
            exact .sidecar hsidecar hunmodified hnames hwritten hfinds
          · intro h
            cases h with
            | sidecar hsome hunmodified hnames hwritten hfinds =>
                obtain rfl := Option.some.inj (hsidecar.symm.trans hsome)
                exact ⟨hunmodified, _, hnames, hwritten, hfinds⟩
            | sections hnone _ => cases hsidecar.symm.trans hnone
      | none =>
          rw [← in_turn_eq_update hsidecar]
          refine (fills_in_turn wanted _ ⟨target, cache, false, []⟩).congr fun path d => ⟨?_, ?_⟩
          · rintro ⟨s, hsees⟩
            exact .sections hsidecar hsees
          · intro h
            cases h with
            | sidecar hsome _ _ _ _ => cases hsidecar.symm.trans hsome
            | sections _ hsees => exact ⟨_, hsees⟩

/-- A use fills the cache with what is got in its course. -/
theorem Use.fills (use : Use) (cache : SourceCache) : cache.Fills (use.after cache) (use.Gets cache) := by
  cases use with
  | get view written =>
      refine (fills_get cache view written).congr fun path d => ⟨fun ⟨hkey, hget⟩ => .get hkey hget, ?_⟩
      rintro ⟨hkey, hget⟩
      exact ⟨hkey, hget⟩
  | update view target wanted source => exact fills_update cache view target wanted source
  | pull target wanted turns =>
      refine (fills_in_turn wanted turns ⟨target, cache, false, []⟩).congr fun path d => ⟨?_, ?_⟩
      · rintro ⟨s, hsees⟩
        exact .pull hsees
      · intro h
        cases h with
        | pull hsees => exact ⟨_, hsees⟩

/-- The cache after several uses, one after another. -/
def afterAll (start : SourceCache) (uses : List Use) : SourceCache :=
  uses.foldl (fun cache use => use.after cache) start

/-- `Obtains start uses path d` says that the document `d` is got by the absolute path `path` in the course of
some use. -/
inductive Obtains : SourceCache → List Use → Path → Document → Prop where
  | here {start : SourceCache} {use : Use} {rest : List Use} {path : Path} {d : Document}
      (h : use.Gets start path d) : Obtains start (use :: rest) path d
  | later {start : SourceCache} {use : Use} {rest : List Use} {path : Path} {d : Document}
      (h : Obtains (use.after start) rest path d) : Obtains start (use :: rest) path d

/-- Uses one after another fill the cache with all that is got in their course. -/
theorem fills_all (start : SourceCache) (uses : List Use) :
    start.Fills (start.afterAll uses) (Obtains start uses) := by
  induction uses generalizing start with
  | nil => exact fills_nothing start fun _ _ h => nomatch h
  | cons use rest ih =>
      refine ((use.fills start).trans (ih (use.after start))).congr fun path d => ⟨?_, ?_⟩
      · rintro (h | h)
        · exact .here h
        · exact .later h
      · rintro (h | h)
        · exact .inl h
        · exact .inr h

/-! ## The snapshot -/

/-- `start.IsSnapshot uses cache` says of a cache that was used from `start` on that it is a stable snapshot of
the documents that were got. -/
structure IsSnapshot (start : SourceCache) (uses : List Use) (cache : SourceCache) : Prop where
  /-- There are as many documents as absolute paths by which one was got. -/
  size_eq : cache.size = {path | ∃ d, Obtains start uses path d}.ncard
  /-- What was got by a path is what the disk once had there, and every later get by this path gives it, however
  the path is written, whatever the disk has there then, and after any further uses. -/
  get_of_obtained : ∀ path d, Obtains start uses path d →
    (∃ view, start.readingAt view path = .ok d) ∧
      ∀ later view written, keyOf view written = .ok path →
        (((cache.afterAll later).get written).report view).1 = .ok (d, cache.afterAll later)
  /-- Documents stay, in their order. -/
  documents_kept : ∀ later, cache.documents <+: (cache.afterAll later).documents
  /-- A path by which nothing was got is read from the disk as it is, and what is read is kept. -/
  get_of_unobtained : ∀ path, (∀ d, ¬ Obtains start uses path d) →
    ∀ view written, keyOf view written = .ok path →
      ((cache.get written).report view).1 = (start.readingAt view path).map fun d =>
        (d, { cache with documents := cache.documents ++ [(path, d)] })
  /-- A get that fails leaves the cache, and nothing was got by its path. -/
  of_failed : ∀ view written failure, ((cache.get written).report view).1 = .error failure →
    Use.after cache (.get view written) = cache ∧
      ∀ path, keyOf view written = .ok path → ∀ d, ¬ Obtains start uses path d
  /-- All sections that pull from one absolute path, one after another, see one document there. -/
  one_version : ∀ target wanted turns s s' path d d',
    Sees wanted turns ⟨target, cache, false, []⟩ s path d →
      Sees wanted turns ⟨target, cache, false, []⟩ s' path d' → d = d'

/-- A path that the cache has is answered out of the cache. -/
theorem get_of_lookup {view : View} {written : Text} (hkey : keyOf view written = .ok path)
    (hlookup : cache.documents.lookup path = some d) :
    ((cache.get written).report view).1 = .ok (d, cache) := by
  rw [result_get, hkey]
  show (cache.documentAt view path).map _ = _
  unfold documentAt keeping
  rw [hlookup]
  rfl

/-- A path that the cache has not is read from the disk. -/
theorem get_of_not_lookup {view : View} {written : Text} (hkey : keyOf view written = .ok path)
    (hlookup : cache.documents.lookup path = none) :
    ((cache.get written).report view).1 = (cache.readingAt view path).map fun d =>
      (d, { cache with documents := cache.documents ++ [(path, d)] }) := by
  rw [result_get, hkey]
  show (cache.documentAt view path).map _ = _
  unfold documentAt keeping
  rw [hlookup]
  rfl

/-- Of a cache that had nothing at the start, an entry was got and is a reading. -/
theorem Fills.got_of_lookup (h : start.Fills cache got) (hnone : start.documents = [])
    (hlookup : cache.documents.lookup path = some d) :
    got path d ∧ ∃ view, start.readingAt view path = .ok d := by
  obtain ⟨before, after, hdocuments, -⟩ := List.lookup_eq_some_iff.1 hlookup
  have hmem : (path, d) ∈ cache.documents := hdocuments ▸ List.mem_append_right _ List.mem_cons_self
  refine (h.got_of_new path d hmem).resolve_left fun hstart => ?_
  rw [hnone] at hstart
  exact List.not_mem_nil hstart

theorem mem_paths_iff : path ∈ cache.paths ↔ ∃ d, cache.documents.lookup path = some d := by
  rw [← Option.isSome_iff_exists, Option.isSome_iff_ne_none, ne_eq, lookup_eq_none_iff, not_not]

/-- A cache has as many documents as paths. -/
theorem size_eq_ncard (hnodup : cache.paths.Nodup) : cache.size = {path | path ∈ cache.paths}.ncard := by
  have hpaths : {path | path ∈ cache.paths} = (cache.paths.toFinset : Set Path) := by
    ext path
    simp
  rw [hpaths, Set.ncard_coe_finset, List.toFinset_card_of_nodup hnodup, paths, List.length_map, size]

end SourceCache

end TrackedSections
