import TrackedSections.Proofs.Document.Loading
import TrackedSections.Proofs.Merge.Replacement
import TrackedSections.Update

/-!
# What an update does

`source_cases` says all that looking for a source can do: its document is found and kept in the cache, or there is
none. Whatever taking from sources maintains of a target, an update maintains it too, whether it fails or not
(`update_maintains`).
-/

namespace TrackedSections

open Effect

/-! ## What a cache gives -/

namespace SourceCache

variable {cache cache' : SourceCache} {view : View} {written : Text} {d : Document}

/-- The absolute path under which a source is kept. -/
def keyOf (view : View) (written : Text) : Except Failure Path :=
  (view.host.expand written).map (Path.absolute ⟨.slash, view.disk.workdir⟩)

/-- The document at an absolute path: the one in the cache, or what is read from the disk there. -/
def documentAt (cache : SourceCache) (view : View) (path : Path) : Except Failure Document :=
  match cache.documents.lookup path with
  | some d => .ok d
  | none => ((Document.load path.toText cache.commentPrefix cache.config).report view).1

/-- The document at the path that a written path leads to. -/
def documentOf (cache : SourceCache) (view : View) (written : Text) : Except Failure Document :=
  (keyOf view written).bind (cache.documentAt view)

theorem outcome_key (view : View) (written : Text) (notices : List Notice) :
    outcome (key written) view notices = (keyOf view written, notices) := by
  rw [key, outcome_bind, Inspection.outcome_expand, keyOf]
  cases view.host.expand written <;> rfl

/-- A cache that keeps what was read at a path answers for every path as it did before. -/
theorem document_at_append {path : Path} (hnew : cache.documents.lookup path = none)
    (hload : ((Document.load path.toText cache.commentPrefix cache.config).report view).1 = .ok d) :
    ({ cache with documents := cache.documents ++ [(path, d)] } : SourceCache).documentAt view =
      cache.documentAt view := by
  funext path'
  unfold documentAt
  dsimp only
  rw [List.lookup_append]
  by_cases hsame : path' = path
  · rw [hsame, hnew, hload, Option.none_or, List.lookup_cons, beq_self_eq_true]
  · rw [List.lookup_cons, beq_eq_false_iff_ne.2 hsame, List.lookup_nil, Option.or_none]

/-- `cache.keeping path d` has the document `d` at an absolute path, unless the cache had one there before. -/
def keeping (cache : SourceCache) (path : Path) (d : Document) : SourceCache :=
  if (cache.documents.lookup path).isSome then cache
  else { cache with documents := cache.documents ++ [(path, d)] }

/-- A document is got by its absolute path, out of the cache or from the disk, and then it is kept. -/
theorem result_get (cache : SourceCache) (view : View) (written : Text) :
    ((cache.get written).report view).1 = (keyOf view written).bind fun path =>
      (cache.documentAt view path).map fun d => (d, cache.keeping path d) := by
  show (outcome (cache.get written) view []).1 = _
  rw [get, outcome_bind, outcome_key]
  cases keyOf view written with
  | error failure => rfl
  | ok path =>
      show _ = (cache.documentAt view path).map _
      unfold documentAt keeping
      dsimp only
      cases cache.documents.lookup path with
      | some d => rfl
      | none =>
          dsimp only
          rw [outcome_bind]
          show _ = (outcome (Document.load path.toText cache.commentPrefix cache.config) view []).1.map _
          generalize outcome (Document.load path.toText cache.commentPrefix cache.config) view [] = result
          obtain ⟨failure | d, notices⟩ := result <;> rfl

/-- A cache that keeps a document that it gave answers as it did before. -/
theorem document_at_keeping {path : Path} (h : cache.documentAt view path = .ok d) :
    (cache.keeping path d).documentAt view = cache.documentAt view := by
  unfold keeping
  unfold documentAt at h
  cases hlookup : cache.documents.lookup path with
  | some d' => rfl
  | none =>
      rw [hlookup] at h
      exact document_at_append hlookup h

/-- A document that is got comes with its absolute path, and the cache keeps it there. -/
theorem ok_of_get (h : ((cache.get written).report view).1 = .ok (d, cache')) :
    ∃ path, keyOf view written = .ok path ∧ cache.documentAt view path = .ok d ∧
      cache' = cache.keeping path d := by
  rw [result_get] at h
  cases hkey : keyOf view written with
  | error failure => rw [hkey] at h; cases h
  | ok path =>
      rw [hkey] at h
      change (cache.documentAt view path).map _ = _ at h
      cases hdocument : cache.documentAt view path with
      | error failure => rw [hdocument] at h; cases h
      | ok d' =>
          rw [hdocument] at h
          obtain ⟨rfl, rfl⟩ := Prod.mk.inj (Except.ok.inj h)
          exact ⟨path, rfl, hdocument, rfl⟩

/-- What is got from a cache is the document of the source, and nothing is got exactly if there is none. -/
theorem map_fst_get (cache : SourceCache) (view : View) (written : Text) :
    ((cache.get written).report view).1.map Prod.fst = cache.documentOf view written := by
  rw [result_get, documentOf]
  cases keyOf view written with
  | error failure => rfl
  | ok path =>
      show ((cache.documentAt view path).map _).map _ = cache.documentAt view path
      cases cache.documentAt view path <;> rfl

theorem comment_prefix_keeping (cache : SourceCache) (path : Path) (d : Document) :
    (cache.keeping path d).commentPrefix = cache.commentPrefix := by
  unfold keeping
  split <;> rfl

/-- Keeping a document drops none. -/
theorem documents_prefix_keeping (cache : SourceCache) (path : Path) (d : Document) :
    cache.documents <+: (cache.keeping path d).documents := by
  unfold keeping
  split
  · exact List.prefix_rfl
  · exact List.prefix_append _ _

/-- A document that is given is kept. -/
theorem mem_keeping {path : Path} (h : cache.documentAt view path = .ok d) :
    (path, d) ∈ (cache.keeping path d).documents := by
  unfold keeping
  unfold documentAt at h
  cases hlookup : cache.documents.lookup path with
  | some d' =>
      rw [hlookup] at h
      obtain rfl := Except.ok.inj h
      obtain ⟨before, after, hdocuments, -⟩ := List.lookup_eq_some_iff.1 hlookup
      show (path, d') ∈ cache.documents
      rw [hdocuments]
      exact List.mem_append_right _ List.mem_cons_self
  | none => exact List.mem_append_right _ (List.mem_singleton.2 rfl)

/-- What is kept with a document that is given was kept before or was read. -/
theorem of_mem_keeping {path : Path} (h : cache.documentAt view path = .ok d) {entry : Path × Document}
    (hentry : entry ∈ (cache.keeping path d).documents) : entry ∈ cache.documents ∨ ∃ notices,
      outcome (Document.load path.toText cache.commentPrefix cache.config) view [] =
        (.ok entry.2, notices) := by
  unfold keeping at hentry
  unfold documentAt at h
  cases hlookup : cache.documents.lookup path with
  | some d' =>
      rw [hlookup] at hentry
      exact .inl hentry
  | none =>
      rw [hlookup] at h hentry
      refine (List.mem_append.1 hentry).imp_right fun hentry => ?_
      obtain rfl := List.mem_singleton.1 hentry
      exact ⟨_, Prod.ext h rfl⟩

end SourceCache

namespace Pulling

variable {view : View}

/-! ## Looking for a source -/

/-- Looking at the disk gives what is seen there and changes no more than the notices. -/
theorem outcome_look {α : Type} (x : Inspection α) (view : View) (pull : Pull) :
    outcome (look x) view pull =
      (.ok (x.report view).1, { pull with notices := pull.notices ++ (x.report view).2 }) :=
  rfl

/-- The path of a source as a document at some path names it: seen from the directory of that document. -/
def placeOf (view : View) (path : Option Path) (written : Text) : Except Failure Path :=
  (view.host.expand written).map fun named => (path.map fun place => place.parent.join named).getD named

theorem outcome_source_path (view : View) (written : Text) (declaredIn : Document)
    (notices : List Notice) :
    outcome (sourcePath written declaredIn) view notices =
      (placeOf view declaredIn.path written, notices) := by
  rw [sourcePath, outcome_bind, Inspection.outcome_expand, placeOf]
  cases view.host.expand written with
  | error failure => rfl
  | ok path => cases declaredIn.path <;> rfl

/-- The document that a target at some path pulls from under a written name. -/
def sourceOf (cache : SourceCache) (view : View) (path : Option Path) (written : Text) :
    Except Failure Document :=
  (placeOf view path written).bind fun place => cache.documentOf view place.toText

/-- The source that a target names is got from the cache by its place. -/
theorem result_source (cache : SourceCache) (view : View) (written : Text) (target : Document) :
    ((do cache.get (← sourcePath written target).toText :
        Inspection (Document × SourceCache)).report view).1 =
      (placeOf view target.path written).bind fun place =>
        ((cache.get place.toText).report view).1 := by
  show (outcome (sourcePath written target >>= _) view []).1 = _
  rw [outcome_bind, outcome_source_path]
  cases placeOf view target.path written <;> rfl

/-- All that looking for a source can do. Its document is found and kept in the cache, or there is none, which
ends the run unless it is to be expected. -/
theorem source_cases (written : Text) (excuse : Failure → Notice) (view : View) (pull : Pull) :
    (∃ place path d notices, placeOf view pull.target.path written = .ok place ∧
      SourceCache.keyOf view place.toText = .ok path ∧ pull.cache.documentAt view path = .ok d ∧
      outcome (source? written excuse) view pull =
        (.ok (some d), { pull with cache := pull.cache.keeping path d, notices })) ∨
    (∃ failure notices, sourceOf pull.cache view pull.target.path written = .error failure ∧
      outcome (source? written excuse) view pull =
        (if failure.isExpected then .ok none else .error failure, { pull with notices })) := by
  have hresult := result_source pull.cache view written pull.target
  rw [source?, outcome_bind, Effect.outcome_get]
  dsimp only
  rw [outcome_bind, outcome_look]
  dsimp only
  generalize Inspection.report _ view = report at hresult ⊢
  obtain ⟨result, seen⟩ := report
  change result = _ at hresult
  cases result with
  | ok got =>
      cases hplace : placeOf view pull.target.path written with
      | error failure =>
          rw [hplace] at hresult
          cases hresult
      | ok place =>
          rw [hplace] at hresult
          obtain ⟨path, hkey, hdocument, hcache⟩ := SourceCache.ok_of_get hresult.symm
          exact .inl ⟨place, path, got.1, _, rfl, hkey, hdocument, by rw [← hcache]; rfl⟩
  | error failure =>
      have hsource : sourceOf pull.cache view pull.target.path written = .error failure := by
        rw [sourceOf]
        cases hplace : placeOf view pull.target.path written with
        | error failure' =>
            rw [hplace] at hresult
            obtain rfl := Except.error.inj hresult
            rfl
        | ok place =>
            rw [hplace] at hresult
            show pull.cache.documentOf view place.toText = _
            rw [← SourceCache.map_fst_get]
            exact congrArg (Except.map Prod.fst) hresult.symm
      refine .inr ⟨failure, pull.notices ++ seen ++ if failure.isExpected then [excuse failure] else [],
        hsource, ?_⟩
      dsimp only
      split
      · rfl
      · rw [List.append_nil]
        rfl

/-! ## Pulling -/

/-- All that pulling a section does: it finds no source, or a source that is kept in the cache. Of that it takes no
more than the section of the same name. -/
theorem pull_section_cases (wanted : List (Option Text)) (s : Tracked) (view : View) (pull : Pull) :
    let pull' := (outcome (pullSection wanted s) view pull).2
    (∃ notices, pull' = { pull with notices }) ∨
    ∃ path d, pull.cache.documentAt view path = .ok d ∧
      ((∃ notices, pull' = { pull with cache := pull.cache.keeping path d, notices }) ∨
        ∃ candidate isChanged notices, d.get? s.name = some candidate ∧
          pull' = ⟨(pull.target.applySection candidate).target, pull.cache.keeping path d, isChanged, notices⟩) := by
  dsimp only
  unfold pullSection
  split
  · exact .inl ⟨pull.notices, rfl⟩
  · next written _ =>
      split
      · rw [outcome_bind]
        rcases source_cases written (.sectionSourceFailed written) view pull with
          ⟨place, path, d, notices, -, -, hdocument, hsource⟩ | ⟨failure, notices, -, hsource⟩
        · rw [hsource]
          refine .inr ⟨path, d, hdocument, ?_⟩
          dsimp only
          unfold pullFrom
          cases hcandidate : d.get? s.name with
          | none => exact .inl ⟨_, rfl⟩
          | some candidate =>
              dsimp only
              split
              · exact .inr ⟨candidate, _, _, rfl, rfl⟩
              · exact .inl ⟨_, rfl⟩
        · rw [hsource]
          refine .inl ⟨notices, ?_⟩
          cases failure.isExpected <;> rfl
      · exact .inl ⟨pull.notices, rfl⟩

/-- A target without a sidecar pulls its sections one after another. -/
theorem update_eq {target : Document} (hsidecar : target.sidecar = none) (cache : SourceCache)
    (wanted : List (Option Text)) (view : View) :
    target.update cache wanted none view =
      outcome (target.tracked.forM (pullSection wanted)) view ⟨target, cache, false, []⟩ := by
  show outcome (pullAll wanted) view _ = _
  rw [pullAll, outcome_bind, outcome_get]
  dsimp only
  rw [hsidecar]

/-- A target with a sidecar pulls its content. -/
theorem update_sidecar_eq {target : Document} {s : Sidecar} (hsidecar : target.sidecar = some s)
    (cache : SourceCache) (wanted : List (Option Text)) (view : View) :
    target.update cache wanted none view =
      outcome (pullSidecar s) view ⟨target, cache, false, []⟩ := by
  show outcome (pullAll wanted) view _ = _
  rw [pullAll, outcome_bind, outcome_get]
  dsimp only
  rw [hsidecar]

/-- A target takes the wanted sections from a given source, or all of it. -/
theorem update_from_eq (target : Document) (cache : SourceCache) (wanted : List (Option Text))
    (source : Document) (view : View) :
    target.update cache wanted (some source) view =
      outcome (merge (if !wanted.isEmpty && !target.hasSidecar then target.applyNamed source wanted
        else target.apply source)) view ⟨target, cache, false, []⟩ := by
  show outcome (takeFrom wanted source) view _ = _
  rw [takeFrom, outcome_bind, outcome_get]
  dsimp only
  split <;> rfl

/-! ## What an update maintains -/

/-- The target of a pull has one property, and the sources that were read so far have another one. -/
structure PullOf (p q : Document → Prop) (pull : Pull) : Prop where
  target : p pull.target
  sources : ∀ entry ∈ pull.cache.documents, q entry.2

variable {p q : Document → Prop}

theorem maintains_tell (notice : Notice) : Maintains (PullOf p q) (tell notice) :=
  maintains_modify fun _ h => ⟨h.target, h.sources⟩

/-- Taking the outcome of applying something maintains what the outcome has. -/
theorem maintains_merge {merged : Merged} (h : p merged.target) :
    Maintains (PullOf p q) (merge merged) :=
  maintains_modify fun _ hpull => ⟨h, hpull.sources⟩

/-- Taking what is wanted from one source maintains what taking from it and taking its sections do. -/
theorem maintains_take_from {source : Document}
    (hsection : ∀ c ∈ source.tracked, ∀ d, p d → p (d.applySection c).target)
    (happly : ∀ d, p d → p (d.apply source).target) (wanted : List (Option Text)) :
    Maintains (PullOf p q) (takeFrom wanted source) := by
  refine maintains_get_bind fun pull hpull => ?_
  dsimp only
  split
  · exact maintains_merge (Document.apply_named_maintains hsection hpull.target wanted)
  · exact maintains_merge (happly _ hpull.target)

section

variable (hload : ∀ {written given config view notices notices' d},
  outcome (Document.load written given config) view notices = (.ok d, notices') → q d)
include hload

/-- All sources are still of that kind when one is kept that was in the cache or is read. -/
theorem PullOf.keeping {pull : Pull} (h : PullOf p q pull) {path : Path} {d : Document}
    (hdocument : pull.cache.documentAt view path = .ok d) :
    ∀ entry ∈ (pull.cache.keeping path d).documents, q entry.2 := by
  intro entry hentry
  rcases SourceCache.of_mem_keeping hdocument hentry with hold | ⟨_, hnew⟩
  · exact h.sources entry hold
  · exact hload hnew

variable (hsection : ∀ d e c, p d → q e → c ∈ e.tracked → p (d.applySection c).target)
  (happly : ∀ d e, p d → q e → p (d.apply e).target)

include hsection in
/-- Pulling a section maintains what taking a section of a source does. -/
theorem maintains_pull_section (wanted : List (Option Text)) (s : Tracked) :
    Maintains (PullOf p q) (pullSection wanted s) := by
  intro view pull hpull
  rcases pull_section_cases wanted s view pull with
    ⟨notices, hnothing⟩ | ⟨path, d, hdocument, ⟨notices, hfound⟩ | ⟨candidate, isChanged, notices, hget, htaken⟩⟩
  · rw [hnothing]
    exact ⟨hpull.target, hpull.sources⟩
  · rw [hfound]
    exact ⟨hpull.target, hpull.keeping hload hdocument⟩
  · have hsources := hpull.keeping hload hdocument
    have hd : q d := hsources _ (SourceCache.mem_keeping hdocument)
    rw [htaken]
    exact ⟨hsection _ d candidate hpull.target hd (Document.mem_tracked_of_get hget), hsources⟩

include happly in
/-- Pulling the content of a sidecar's file maintains what taking from a source does. -/
theorem maintains_pull_sidecar (s : Sidecar) : Maintains (PullOf p q) (pullSidecar s) := by
  refine maintains_get_bind fun pull hpull => ?_
  dsimp only
  split
  · exact maintains_tell _
  · split
    · exact maintains_tell _
    · exact maintains_tell _
    · next written _ _ =>
        intro view pull' hpull'
        rw [outcome_bind]
        rcases source_cases written (.sidecarSourceFailed written) view pull' with
          ⟨place, path, d, notices, -, -, hdocument, hsource⟩ | ⟨failure, notices, -, hsource⟩
        · have hsources := hpull'.keeping hload hdocument
          have hd : q d := hsources _ (SourceCache.mem_keeping hdocument)
          rw [hsource]
          exact ⟨happly _ d hpull.target hd, hsources⟩
        · rw [hsource]
          cases failure.isExpected <;> exact ⟨hpull'.target, hpull'.sources⟩

include hsection happly in
/-- Pulling all that is wanted maintains what taking a section and taking from a source do. -/
theorem maintains_pull_all (wanted : List (Option Text)) :
    Maintains (PullOf p q) (pullAll wanted) := by
  refine maintains_get_bind fun pull _ => ?_
  dsimp only
  split
  · exact maintains_pull_sidecar hload happly _
  · exact maintains_for_m fun s _ => maintains_pull_section hload hsection wanted s

end

end Pulling

namespace Document

variable {p q : Document → Prop}

/-- An update maintains what taking a section and taking from a document do, whether it fails or not. -/
theorem update_maintains
    (hload : ∀ {written given config view notices notices' d},
      outcome (load written given config) view notices = (.ok d, notices') → q d)
    (hsection : ∀ d e c, p d → q e → c ∈ e.tracked → p (d.applySection c).target)
    (happly : ∀ d e, p d → q e → p (d.apply e).target) {target : Document} (h : p target)
    {cache : SourceCache} (hcache : ∀ entry ∈ cache.documents, q entry.2) (wanted : List (Option Text))
    {source : Option Document} (hsource : ∀ e, source = some e → q e) (view : View) :
    p (target.update cache wanted source view).2.target := by
  cases source with
  | none =>
      have hall := Pulling.maintains_pull_all hload hsection happly wanted
      exact (hall view ⟨target, cache, false, []⟩ ⟨h, hcache⟩).target
  | some e =>
      have htake : Maintains (Pulling.PullOf p q) (Pulling.takeFrom wanted e) :=
        Pulling.maintains_take_from (fun c hc d hd => hsection d e c hd (hsource e rfl) hc)
          (fun d hd => happly d e hd (hsource e rfl)) wanted
      exact (htake view ⟨target, cache, false, []⟩ ⟨h, hcache⟩).target

end Document

end TrackedSections
