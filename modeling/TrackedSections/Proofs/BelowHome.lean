import TrackedSections.Proofs.Document.Planning
import TrackedSections.Proofs.Merge.PullEach
import TrackedSections.Proofs.Path

/-!
# Paths that are written from home

What is written `~/` and some names is the path of home followed by these names, and so are the targets and
sources that are written this way. Where a second slash follows, the rest is a path from the root instead, and
home is left (`slash_after_tilde_leaves_home`). Read `expand_below_home_iff` first.
-/

namespace TrackedSections

open Effect

namespace Path

/-- `p.down names` is the path `p` followed by more names. -/
def down (p : Path) (names : List Text) : Path := ⟨p.anchor, p.names ++ names⟩

theorem covers_down (p : Path) (names : List Text) : p.Covers (p.down names) :=
  ⟨rfl, List.prefix_append _ _⟩

/-- A text is anchored at the root when it starts with a slash. -/
theorem anchor_of_slash {t : Text} (h : t.head? = some '/') : anchorOf t ≠ .none := by
  obtain ⟨rest, rfl⟩ := List.head?_eq_some_iff.1 h
  unfold anchorOf
  split <;> simp_all

/-- What is written with a slash at its start is not seen from any directory. -/
theorem join_of_slash {t : Text} (h : t.head? = some '/') (p : Path) : p.join (ofText t) = ofText t := by
  have habsolute : (ofText t).isAbsolute = true := decide_eq_true (anchor_of_slash h)
  rw [join, if_pos habsolute]

/-- What is written without a slash at its start is seen from a directory. -/
theorem join_of_ne_slash {t : Text} (h : t.head? ≠ some '/') (p : Path) :
    p.join (ofText t) = p.down (namesOf t) := by
  have hanchor : (ofText t).anchor = .none := @anchor_of_text .none t h
  have hrelative : (ofText t).isAbsolute = false := decide_eq_false (not_not_intro hanchor)
  rw [join, hrelative]
  rfl

/-- What is written somewhere is seen from a directory unless it starts with a slash. With a slash it can come
to the same only if the directory is the root. -/
theorem join_eq_down_iff {t : Text} {p : Path} :
    p.join (ofText t) = p.down (namesOf t) ↔
      t.head? ≠ some '/' ∨ p.names = [] ∧ anchorOf t = p.anchor := by
  by_cases h : t.head? = some '/'
  · rw [join_of_slash h, or_iff_right (not_not_intro h), and_comm, ofText, down, Path.mk.injEq,
      List.self_eq_append_left]
  · exact iff_of_true (join_of_ne_slash h p) (.inl h)

end Path

namespace Host

variable {host : Host} {home : Path}

/-- What is written from home is its rest, seen from home. -/
theorem expand_from_home (h : host.homeDirectory = .ok home) (rest : Text) :
    host.expand ('~' :: '/' :: rest) = .ok (home.join (Path.ofText rest)) := by
  rw [expand, h]
  rfl

/-- What is not written from home stands for itself. -/
theorem expand_of_not_home {t : Text} (hhome : t ≠ ['~']) (hbelow : ¬ ['~', '/'] <+: t) :
    host.expand t = .ok (Path.ofText t) := by
  unfold expand
  split
  · exact absurd rfl hhome
  · next rest => exact absurd ⟨rest, rfl⟩ hbelow
  · rfl

/-- What is found below home, as it is written, is not expanded any further. -/
theorem expand_down (h : host.homeDirectory = .ok home) (habsolute : home.isAbsolute = true) (rest : Text) :
    host.expand (home.down (Path.namesOf rest)).toText = .ok (home.down (Path.namesOf rest)) := by
  have hhome : home.Normal := normal_of_expand (t := ['~']) h
  have hnormal : (home.down (Path.namesOf rest)).Normal := fun name hname =>
    (List.mem_append.1 hname).elim (hhome name) (Path.normal_of_text rest name)
  have hanchor : home.anchor ≠ .none := of_decide_eq_true habsolute
  exact expand_to_text hnormal fun htilde => hanchor htilde.1

end Host

/-- The target of a plan is where its name leads. -/
theorem Document.Planned.path_eq {source : Document} {config : Config} {view : View} {plan : Plan}
    (h : Planned source config view plan) {written : Text} (htarget : source.target = some written)
    {place path : Path} (hexpand : view.host.expand written = .ok place)
    (hplan : plan = .create path ∨ ∃ target, plan = .update path target) : path = place := by
  cases h with
  | skip | keep => rcases hplan with hplan | ⟨_, hplan⟩ <;> cases hplan
  | create htarget' hexpand' =>
      obtain rfl := Option.some.inj (htarget.symm.trans htarget')
      obtain rfl := Except.ok.inj (hexpand.symm.trans hexpand')
      rcases hplan with hplan | ⟨_, hplan⟩ <;> cases hplan
      rfl
  | update htarget' hexpand' =>
      obtain rfl := Option.some.inj (htarget.symm.trans htarget')
      obtain rfl := Except.ok.inj (hexpand.symm.trans hexpand')
      rcases hplan with hplan | ⟨_, hplan⟩ <;> cases hplan
      rfl

/-- What is written from home is the path of home followed by the names of the rest, if no second slash follows
(or home is the root, and the slashes agree); otherwise it is the rest, seen from the root. What is not written
from home stands for itself. Without a second slash, the target of a document that is applied is at or below
home, and so is the source that a document names, which is found there again when its path is written out. -/
theorem expand_below_home_iff {view : View} {home : Path} (hhome : view.host.homeDirectory = .ok home)
    (rest : Text) :
    let written := '~' :: '/' :: rest
    let below := home.down (Path.namesOf rest)
    (view.host.expand written = .ok below ↔
      rest.head? ≠ some '/' ∨ home.names = [] ∧ Path.anchorOf rest = home.anchor) ∧
    (rest.head? = some '/' → view.host.expand written = .ok (Path.ofText rest)) ∧
    (∀ t, t ≠ ['~'] → ¬ ['~', '/'] <+: t → view.host.expand t = .ok (Path.ofText t)) ∧
    (rest.head? ≠ some '/' → home.Covers below ∧
      (∀ (source : Document) config plan path, source.target = some written →
        ((source.plan config).report view).1 = .ok plan →
        plan = .create path ∨ (∃ target, plan = .update path target) → path = below) ∧
      (∀ declaredIn : Document, home.isAbsolute = true ∨ declaredIn.path = none →
        ((Pulling.sourcePath written declaredIn).report view).1 = .ok below) ∧
      (home.isAbsolute = true → view.host.expand below.toText = .ok below)) := by
  intro written below
  have hexpand := Host.expand_from_home hhome rest
  refine ⟨?_, fun hslash => ?_, fun t => Host.expand_of_not_home, fun hslash => ?_⟩
  · rw [hexpand, Except.ok.injEq]
    exact Path.join_eq_down_iff
  · rw [hexpand, Path.join_of_slash hslash]
  · rw [Path.join_of_ne_slash hslash] at hexpand
    refine ⟨home.covers_down _, fun source config plan path htarget hplan => ?_, fun declaredIn hseen => ?_,
      fun habsolute => Host.expand_down hhome habsolute rest⟩
    · exact (Document.planned_of_report hplan).path_eq htarget hexpand
    · have hreport : ((Pulling.sourcePath written declaredIn).report view).1 =
          Pulling.placeOf view declaredIn.path written :=
        congrArg Prod.fst (Pulling.outcome_source_path view written declaredIn [])
      rw [hreport, Pulling.placeOf, hexpand]
      cases hpath : declaredIn.path with
      | none => rfl
      | some place =>
          have habsolute : below.isAbsolute = true := hseen.resolve_right (by simp [hpath])
          show Except.ok (place.parent.join below) = _
          rw [Path.join, if_pos habsolute]

/-- A surrounding with the home `/h`, and a configuration whose path has a second slash after `~/`. -/
def slashedHost : Host := ⟨some "/h".toList, none, some "~//a".toList, none, [], [], []⟩

/-- A target that is written from home, to be created from a document that was accepted, and a path with a
second slash. -/
theorem created_below_home :
    let view : View := ⟨slashedHost, ⟨.directory 0o755 [], []⟩⟩
    let home : Path := ⟨.slash, [['h']]⟩
    let below : Path := ⟨.slash, [['h'], ['a'], ['.', '.'], ['b']]⟩
    let written := "~/.//a/../b".toList
    let source : Document := { (Document.ofText ['#'] none Document.acceptedSource).1 with target := some written }
    view.host.homeDirectory = .ok home ∧ view.host.expand written = .ok below ∧
      view.host.expand "~//a".toList = .ok ⟨.slash, [['a']]⟩ ∧
      view.host.expand "~a/b".toList = .ok ⟨.none, ["~a".toList, ['b']]⟩ ∧ home.Covers below ∧
      ((source.plan .empty).report view).1 = .ok (.create below) ∧
      (∀ declaredIn, ((Pulling.sourcePath written declaredIn).report view).1 = .ok below) ∧
      view.host.expand below.toText = .ok below := by
  intro view home below written source
  have hhome : view.host.homeDirectory = .ok home := rfl
  have htarget : source.target = some written := rfl
  have hplan : ∃ path, ((source.plan .empty).report view).1 = .ok (.create path) := by
    have hmanaged : source.isManaged = true := by decide +kernel
    have hsidecar : source.hasSidecar = false := by decide +kernel
    clear_value source
    have hcreation : ((source.planCreation below).report view).1 = .ok (.create below) := by
      rw [Document.planCreation, hsidecar, hmanaged]
      rfl
    rw [Document.plan, htarget]
    exact ⟨below, hcreation⟩
  obtain ⟨hbelow, -, hother, hseen⟩ := expand_below_home_iff hhome ".//a/../b".toList
  obtain ⟨hcovers, htargets, hsources, hagain⟩ := hseen (by decide)
  obtain ⟨-, hslash, -⟩ := expand_below_home_iff hhome "/a".toList
  obtain ⟨path, hpath⟩ := hplan
  obtain rfl : path = below := htargets source .empty _ path htarget hpath (.inl rfl)
  exact ⟨hhome, hbelow.2 (.inl (by decide)), hslash rfl, hother _ (by decide) (by decide), hcovers, hpath,
    fun declaredIn => hsources declaredIn (.inl rfl), hagain rfl⟩

/-- A second slash leads out of home, where a configuration that is written the same way is found below it. -/
theorem slash_after_tilde_leaves_home :
    ∃ (host : Host) (home path : Path) (rest : Text), host.homeDirectory = .ok home ∧
      host.configFile = some ('~' :: '/' :: rest) ∧ host.configPath = .ok (home.down (Path.namesOf rest)) ∧
      host.expand ('~' :: '/' :: rest) = .ok path ∧ ¬ home.Covers path :=
  ⟨slashedHost, ⟨.slash, [['h']]⟩, ⟨.slash, [['a']]⟩, "/a".toList, rfl, rfl, rfl, rfl,
    fun h => absurd h.2 (by decide)⟩

end TrackedSections
