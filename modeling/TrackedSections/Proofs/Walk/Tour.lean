import TrackedSections.Proofs.Document.Saving
import TrackedSections.Proofs.Walk.Files

/-!
# Runs that go on

A run that notes what handling each file came to goes on in any case. Read `toured` first: such a run
through directories meets each file once, and it meets all files that were there when it started, although
it looks into a directory only when its turn comes.
-/

namespace TrackedSections

open Effect

/-- What handling each file of a run came to, in the order of the run. -/
abbrev Results (α : Type) : Type := List (Path × Except Failure α)

namespace Effect

variable {ρ σ α : Type} {p : σ → Prop} {P : Path → Except Failure α → Prop}
  {handle : Path → Effect ρ σ α} {env : ρ}

/-- Handles a file and notes what that came to, so that the run goes on in any case. -/
def note (handle : Path → Effect ρ σ α) (results : Results α) (path : Path) :
    Effect ρ σ (Results α) := do
  let result ← tryCatch (Except.ok <$> handle path) fun failure => pure (.error failure)
  pure (results ++ [(path, result)])

theorem outcome_note (handle : Path → Effect ρ σ α) (results : Results α) (path : Path) (env : ρ)
    (s : σ) : outcome (note handle results path) env s =
      (.ok (results ++ [(path, (outcome (handle path) env s).1)]), (outcome (handle path) env s).2) := by
  rw [note, outcome_bind, outcome_try_catch, outcome_map]
  rcases outcome (handle path) env s with ⟨_ | a, s'⟩ <;> rfl

/-- Handles files one after the other and notes what that came to. -/
def noteAll (handle : Path → Effect ρ σ α) (paths : List Path) : Effect ρ σ (Results α) :=
  paths.foldlM (note handle) []

/-- A run over a list of files has a result for each of them. -/
theorem outcome_note_all (hP : ∀ path s, P path (outcome (handle path) env s).1) (paths : List Path)
    (s : σ) : ∃ results s', outcome (noteAll handle paths) env s = (.ok results, s') ∧
      results.map Prod.fst = paths ∧ ∀ r ∈ results, P r.1 r.2 := by
  have hfold : ∀ results s, ∃ more s',
      outcome (paths.foldlM (note handle) results) env s = (.ok (results ++ more), s') ∧
        more.map Prod.fst = paths ∧ ∀ r ∈ more, P r.1 r.2 := by
    induction paths with
    | nil => exact fun results s => ⟨[], s, by simp, rfl, fun _ hr => nomatch hr⟩
    | cons path rest ih =>
        intro results s
        obtain ⟨more, s', hrest, hpaths, hmore⟩ := ih
          (results ++ [(path, (outcome (handle path) env s).1)]) (outcome (handle path) env s).2
        refine ⟨(path, (outcome (handle path) env s).1) :: more, s', ?_, ?_, ?_⟩
        · rw [List.foldlM_cons, bind_of_ok (outcome_note handle results path env s), hrest,
            List.append_assoc]
          rfl
        · rw [List.map_cons, hpaths]
        · exact List.forall_mem_cons.2 ⟨hP path s, hmore⟩
  obtain ⟨results, s', hresults⟩ := hfold [] s
  exact ⟨results, s', hresults⟩

/-- The results of a run that started at some roots: each file is met once and below one of the roots, the
files that are needed are met, and what handling a file came to is as `P` says. -/
structure Toured (P : Path → Except Failure α → Prop) (roots : List Path) (needed : Path → Prop)
    (results : Results α) : Prop where
  distinct : (results.map Prod.fst).Nodup
  covered : ∀ q ∈ results.map Prod.fst, ∃ root ∈ roots, root.Covers q
  met : ∀ q, needed q → q ∈ results.map Prod.fst
  each : ∀ r ∈ results, P r.1 r.2

theorem Toured.nil {roots : List Path} {needed : Path → Prop} (h : ∀ q, ¬ needed q) :
    Toured P roots needed [] :=
  ⟨.nil, fun _ hq => (nomatch hq), fun q hq => (h q hq).elim, fun _ hr => (nomatch hr)⟩

/-- No path is below two of the roots. -/
def Apart (roots : List Path) : Prop := roots.Pairwise fun a b => ∀ q, a.Covers q → ¬ b.Covers q

/-- Runs that started at roots with nothing in common make up a run. -/
theorem Toured.append {first second : List Path} {needed needed' : Path → Prop}
    {results more : Results α} (h : Toured P first needed results)
    (h' : Toured P second needed' more) (hapart : Apart (first ++ second)) :
    Toured P (first ++ second) (fun q => needed q ∨ needed' q) (results ++ more) := by
  refine ⟨?_, fun q hq => ?_, fun q hq => ?_, fun r hr => ?_⟩
  · rw [List.map_append]
    refine List.nodup_append.2 ⟨h.distinct, h'.distinct, ?_⟩
    rintro q hq _ hq' rfl
    obtain ⟨root, hroot, hcovers⟩ := h.covered q hq
    obtain ⟨other, hother, hcovers'⟩ := h'.covered q hq'
    exact (List.pairwise_append.1 hapart).2.2 root hroot other hother q hcovers hcovers'
  · rw [List.map_append] at hq
    rcases List.mem_append.1 hq with hq | hq
    · obtain ⟨root, hroot, hcovers⟩ := h.covered q hq
      exact ⟨root, List.mem_append_left _ hroot, hcovers⟩
    · obtain ⟨root, hroot, hcovers⟩ := h'.covered q hq
      exact ⟨root, List.mem_append_right _ hroot, hcovers⟩
  · rw [List.map_append, List.mem_append]
    exact hq.imp (h.met q) (h'.met q)
  · exact (List.mem_append.1 hr).elim (h.each r) (h'.each r)

/-- A run that started at entries of a directory started at the directory. -/
theorem Toured.above {roots : List Path} {root : Path} {needed needed' : Path → Prop}
    {results : Results α} (h : Toured P roots needed results) (hroots : ∀ q ∈ roots, root.Covers q)
    (hneeded : ∀ q, needed' q → needed q) : Toured P [root] needed' results := by
  refine ⟨h.distinct, fun q hq => ?_, fun q hq => h.met q (hneeded q hq), h.each⟩
  obtain ⟨other, hother, hcovers⟩ := h.covered q hq
  exact ⟨root, List.mem_singleton.2 rfl, (hroots other hother).trans hcovers⟩

/-- An operation that goes on with a run started at some roots, and does not fail. -/
def Tours (p : σ → Prop) (P : Path → Except Failure α → Prop) (roots : List Path)
    (needed : Path → Prop) (env : ρ) (x : Results α → Effect ρ σ (Results α)) : Prop :=
  ∀ results s, p s → ∃ more s', outcome (x results) env s = (.ok (results ++ more), s') ∧
    Toured P roots needed more ∧ p s'

/-- Two runs one after the other make up a run. -/
theorem Tours.bind {first second : List Path} {needed needed' : Path → Prop}
    {x y : Results α → Effect ρ σ (Results α)} (hx : Tours p P first needed env x)
    (hy : Tours p P second needed' env y) (hapart : Apart (first ++ second)) :
    Tours p P (first ++ second) (fun q => needed q ∨ needed' q) env
      fun results => x results >>= y := by
  intro results s hs
  obtain ⟨more, s', hfirst, htoured, hs'⟩ := hx results s hs
  obtain ⟨more', s'', hsecond, htoured', hs''⟩ := hy (results ++ more) s' hs'
  refine ⟨more ++ more', s'', ?_, htoured.append htoured' hapart, hs''⟩
  dsimp only
  rw [bind_of_ok hfirst, hsecond, List.append_assoc]

/-- A run visits one root after the other. -/
theorem tours_fold {roots : List Path} {needed : Path → Path → Prop}
    {visit : Results α → Path → Effect ρ σ (Results α)}
    (hvisit : ∀ root ∈ roots, Tours p P [root] (needed root) env (visit · root))
    (hapart : Apart roots) :
    Tours p P roots (fun q => ∃ root ∈ roots, needed root q) env
      fun results => roots.foldlM visit results := by
  induction roots with
  | nil =>
      exact fun results s hs => ⟨[], s, by simp, .nil fun _ ⟨_, hroot, _⟩ => (nomatch hroot), hs⟩
  | cons root rest ih =>
      obtain ⟨hroot, hrest⟩ := List.forall_mem_cons.1 hvisit
      have htours := hroot.bind (ih hrest (List.pairwise_cons.1 hapart).2) hapart
      intro results s hs
      obtain ⟨more, s', hrun, htoured, hs'⟩ := htours results s hs
      refine ⟨more, s', hrun, ⟨htoured.distinct, htoured.covered, fun q hq => ?_, htoured.each⟩, hs'⟩
      obtain ⟨other, hother, hneeded⟩ := hq
      rcases List.mem_cons.1 hother with rfl | hother
      · exact htoured.met q (.inl hneeded)
      · exact htoured.met q (.inr ⟨other, hother, hneeded⟩)

/-- Noting one file is a run. -/
theorem tours_note (hmaintains : ∀ path, Maintains p (handle path))
    (hP : ∀ path s, P path (outcome (handle path) env s).1) (path : Path) :
    Tours p P [path] (· = path) env (note handle · path) := by
  intro results s hs
  refine ⟨[(path, (outcome (handle path) env s).1)], _, outcome_note handle results path env s, ?_,
    hmaintains path env s hs⟩
  refine ⟨List.nodup_singleton _, fun q hq => ?_, fun q hq => List.mem_singleton.2 hq, fun r hr => ?_⟩
  · obtain rfl := List.mem_singleton.1 hq
    exact ⟨q, List.mem_singleton.2 rfl, .refl q⟩
  · obtain rfl := List.mem_singleton.1 hr
    exact hP path s

end Effect

/-- A listing at a path without null characters does not fail. -/
theorem Inspection.outcome_listing {path : Path} (hnull : path.hasNull = false) (view : View)
    (notices : List Notice) : outcome (listing path) view notices =
      (.ok (match view.disk.node path with
        | .ok node => Walk.listing path node
        | .error _ => ([], [])), notices) := by
  rw [listing, if_neg (by simp [hnull]), outcome_bind, outcome_read]
  dsimp only
  cases view.disk.node path <;> rfl

/-- A walk at a path without null characters does not fail. -/
theorem Inspection.outcome_walk {path : Path} (hnull : path.hasNull = false) (view : View)
    (notices : List Notice) : outcome (walk path) view notices =
      (.ok (match view.disk.node path with
        | .ok node => Walk.files path node
        | .error _ => []), notices) := by
  rw [walk, if_neg (by simp [hnull]), outcome_bind, outcome_read]
  dsimp only
  cases view.disk.node path <;> rfl

namespace Operation

variable {α : Type} {P : Path → Except Failure α → Prop} {handle : Path → Operation α} {host : Host}

/-- A listing does not fail at a path without null characters. In a proper tree all its paths are
different entries. -/
theorem outcome_look_listing {path : Path} (hnull : path.hasNull = false) {progress : Progress}
    (hproper : progress.disk.tree.Proper) : ∃ files directories progress',
      outcome (look (Inspection.listing path)) host progress = (.ok (files, directories), progress') ∧
        progress'.disk = progress.disk ∧ (files ++ directories).Nodup ∧
        (∀ q ∈ files ++ directories, ∃ name, '\x00' ∉ name ∧ q = Walk.entryPath path name) ∧
        ∀ node, progress.disk.node path = .ok node → Walk.listing path node = (files, directories) := by
  rw [outcome_look]
  rw [show (Inspection.listing path).report ⟨host, progress.disk⟩ = _ from
    Inspection.outcome_listing hnull ⟨host, progress.disk⟩ []]
  cases hnode : progress.disk.node path with
  | error refusal =>
      exact ⟨[], [], _, rfl, rfl, .nil, fun _ hq => (nomatch hq), fun _ h => nomatch h⟩
  | ok node =>
      obtain ⟨hnodup, hentries⟩ := Walk.listing_nodup (Disk.proper_of_node hproper hnode) path
      refine ⟨_, _, _, rfl, rfl, hnodup, hentries, fun node' h => ?_⟩
      obtain rfl := Except.ok.inj h
      rfl

/-- A file that is to be met below the directory at a path, not deeper than some depth. -/
def ReachesTo (start : Disk) (depth : Nat) (path q : Path) : Prop :=
  Walk.Reaches start path q ∧ q.names.length ≤ path.names.length + depth

/-- No file is deeper than a run looks. -/
theorem reaches_to_limit {start : Disk} {path q : Path} (h : Walk.Reaches start path q) :
    ReachesTo start Disk.pathLimit path q := by
  refine ⟨h, ?_⟩
  obtain ⟨way, -, -, -, hfile⟩ := h
  exact Nat.le_trans (Disk.length_of_is_file hfile) (Nat.le_add_left _ _)

/-- Whatever handling a file does, a run that looks into directories when their turn comes meets each
file once, as long as the tree stays proper, and it meets all files that there were, as long as nothing is
missing. -/
theorem toured {start : Disk}
    (hmaintains : ∀ path, MaintainsDisk (fun d => d.tree.Proper ∧ start.Keeps d) (handle path))
    (hP : ∀ path progress, P path (outcome (handle path) host progress).1) (depth : Nat) (path : Path)
    (hnull : path.hasNull = false) :
    Tours (fun progress : Progress => progress.disk.tree.Proper ∧ start.Keeps progress.disk) P [path]
      (ReachesTo start depth path) host (visitFilesTo (note handle) depth · path) := by
  induction depth generalizing path with
  | zero =>
      intro results progress hproper
      refine ⟨[], progress, by rw [List.append_nil]; rfl, ?_, hproper⟩
      refine .nil fun q ⟨⟨way, hway, hq, _⟩, hlength⟩ => ?_
      subst hq
      dsimp only at hlength
      rw [List.length_append] at hlength
      cases hway <;> rw [List.length_cons] at hlength <;> omega
  | succ depth ih =>
      intro results progress hprogress
      obtain ⟨hproper, hkeeps⟩ := hprogress
      obtain ⟨files, directories, between, hlisting, hdisk, hnodup, hentries, hfound⟩ :=
        outcome_look_listing hnull hproper
      have hapart : Apart (files ++ directories) := by
        refine hnodup.imp_of_mem ?_
        intro a b ha hb hne q hcovers hcovers'
        obtain ⟨first, -, rfl⟩ := hentries a ha
        obtain ⟨second, -, rfl⟩ := hentries b hb
        exact hne (congrArg (Walk.entryPath path) (Walk.eq_of_covers hcovers hcovers'))
      have hfiles := tours_fold (fun root _ => tours_note hmaintains hP root)
        (List.pairwise_append.1 hapart).1
      have hdirectories := tours_fold (fun root hroot => ih root (by
          obtain ⟨name, hname, rfl⟩ := hentries root (List.mem_append_right _ hroot)
          exact Walk.has_null_entry_path hnull hname))
        (List.pairwise_append.1 hapart).2.1
      obtain ⟨more, progress', hrest, htoured, hprogress'⟩ :=
        hfiles.bind hdirectories hapart results between (by rw [hdisk]; exact ⟨hproper, hkeeps⟩)
      refine ⟨more, progress', ?_, htoured.above ?_ ?_, hprogress'⟩
      · show outcome (visitFilesTo (note handle) (depth + 1) results path) host progress = _
        rw [visitFilesTo, bind_of_ok hlisting]
        exact hrest
      · intro q hq
        obtain ⟨name, -, rfl⟩ := hentries q hq
        exact Walk.covers_entry_path path name
      · rintro q ⟨⟨way, hway, rfl, hsidecar, hfile⟩, hlength⟩
        obtain ⟨name, rest, rfl⟩ : ∃ name rest, way = name :: rest := by
          cases hway <;> exact ⟨_, _, rfl⟩
        obtain ⟨node, hnode, hlast, hbelow⟩ := Disk.listing_of_way hkeeps hway hfile hsidecar
        rw [hfound node hnode] at hlast hbelow
        cases hway with
        | last hup => exact .inl ⟨_, hlast rfl, rfl⟩
        | step hup hskip hrest =>
            refine .inr ⟨_, hbelow (by cases hrest <;> simp),
              ⟨rest, hrest, by simp, hsidecar, hfile⟩, ?_⟩
            simp only [List.length_append, List.length_cons, Walk.names_entry_path] at hlength ⊢
            omega

end Operation

end TrackedSections
