import Edm.Proofs.Decorating.Rejected
import Edm.Proofs.Document.Rendered

/-!
# What a rendering reports

The reports of a rendering are those of the program, which are errors, and one for each property whose type has no
name, which is none.  So the errors are the decorators that were rejected, and there are no warnings
(`Program.counts_of_render`).
-/

namespace Edm

namespace Program

variable {data : Json} {p : Program} {routes : Option Routes} {options : RenderOptions}

/-- A report on a property whose type has no name. -/
theorem of_mem_modelFallbacks {i : ModelId} {d : Diagnostic} (hd : d ∈ p.modelFallbacks i) :
    d.severity = .info ∧ d.code = .unrenderableType := by
  obtain ⟨j, -, hj⟩ := List.mem_filterMap.1 hd
  obtain ⟨t, -, rfl⟩ := Option.map_eq_some_iff.1 hj
  exact ⟨rfl, rfl⟩

theorem of_mem_namespaceFallbacks {space : NamespaceId} {d : Diagnostic} (hd : d ∈ p.namespaceFallbacks space) :
    d.severity = .info ∧ d.code = .unrenderableType := by
  obtain ⟨i, -, hi⟩ := List.mem_flatMap.1 hd
  exact of_mem_modelFallbacks hi

theorem of_mem_fallbacks {excluded : List Text} {space : NamespaceId} {d : Diagnostic}
    (hd : d ∈ p.fallbacks excluded space) : d.severity = .info ∧ d.code = .unrenderableType := by
  obtain ⟨i, -, hi⟩ := List.mem_flatMap.1 hd
  exact of_mem_namespaceFallbacks hi

/-- How many reports of each severity there are, if some are errors and the others are neither errors nor warnings. -/
theorem counts_append {errors infos : List Diagnostic} (herrors : ∀ d ∈ errors, d.severity = .error)
    (hinfos : ∀ d ∈ infos, d.severity = .info) :
    Diagnostic.errorCount (errors ++ infos) = errors.length ∧ Diagnostic.warningCount (errors ++ infos) = 0 := by
  have hcount : ∀ s, Diagnostic.countOf s (errors ++ infos)
      = errors.countP (fun _ => Severity.error == s) + infos.countP (fun _ => Severity.info == s) := by
    intro s
    rw [Diagnostic.countOf, List.countP_append]
    congr 1
    · exact List.countP_congr fun d hd => by rw [herrors d hd]
    · exact List.countP_congr fun d hd => by rw [hinfos d hd]
  rw [Diagnostic.errorCount, Diagnostic.warningCount, hcount, hcount]
  simp [List.countP_eq_length.2, List.countP_eq_zero.2]

/-- The errors of a rendering are the decorators of the description that were rejected; there are no warnings. -/
theorem counts_of_render (h : load data = .ok p) {result : RenderResult}
    (hresult : p.render options routes = .ok result)
    (hfit : p.IsFit) (hroutes : AreRoutes routes) :
    result.errorCount = data.rejectedCount ∧ result.warningCount = 0 := by
  obtain ⟨text, -, hrender⟩ := hfit.render_eq hroutes options
  cases hresult.symm.trans hrender
  have hcounts := counts_append (fun d hd => (onlyRejects_of_load h d hd).1)
    fun d (hd : d ∈ p.fallbacks options.excluded Graph.root) => (of_mem_fallbacks hd).1
  rw [length_diagnostics_of_load h] at hcounts
  exact hcounts

end Program

end Edm
