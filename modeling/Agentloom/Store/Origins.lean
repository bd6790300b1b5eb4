import Agentloom.Store.Runs

/-! What is fixed about a step when it is inserted stays, and so does the step that inserted it. -/

namespace Agentloom.Store

open Relation List

def StepRow.site (row : StepRow) : String × Dag.StepType × Dag.StepConfig × Int × Int ×
    Option String × Option Dag.ExpansionOriginKind :=
  (row.stepID, row.stepType, row.config, row.placement)

section Sites

variable {lint : Dag.PlanLint} {may : Permits} {s s' : RunStore}

theorem site_of_same (same : SameStep old new) : new.site = old.site := by
  simp [StepRow.site, same.stepID, same.stepType, same.config, same.placement]

theorem site_widenRow (args : ExpandRun) (now : Time) (row : StepRow) :
    (args.widenRow now row).site = row.site := by
  unfold ExpandRun.widenRow
  split <;> rfl

theorem Effect.sites (effect : Effect lint may s s') :
    s'.steps.map StepRow.site = s.steps.map StepRow.site ∨
      ∃ (args : ExpandRun) (origin : StepRow) (now : Time) (version : Int),
        args.Fits lint origin now s ∧ s'.steps.map StepRow.site = s.steps.map StepRow.site ++
          (args.newSteps version origin now).map StepRow.site := by
  cases effect with
  | moved move _ replaced _ _ _ _ => exact .inl (replaced.map_eq _ (site_of_same move.toSameStep))
  | claimed _ _ replaced _ _ _ _ _ _ => exact .inl (replaced.map_eq _ rfl)
  | awaited _ _ _ replaced _ _ _ => exact .inl (replaced.map_eq _ rfl)
  | resolved _ _ _ _ replaced => exact .inl (replaced.map_eq _ rfl)
  | @expanded args origin now _ fits _ =>
    refine .inr ⟨args, origin, now, s.run.graphVersion + 1, fits, ?_⟩
    simp only [record_steps, ExpandRun.apply, List.map_append, List.map_map]
    congr 1
    exact List.map_congr_left fun row _ => site_widenRow args now row
  | _ => exact .inl rfl

def Remain (s s' : RunStore) : Prop :=
  ∀ row ∈ s.steps, ∃ row' ∈ s'.steps, row'.site = row.site

theorem Remain.refl (s : RunStore) : Remain s s := fun row mem => ⟨row, mem, rfl⟩

theorem Remain.trans (first : Remain s s') (second : Remain s' s'') : Remain s s'' := by
  intro row mem
  obtain ⟨row', mem', same⟩ := first row mem
  obtain ⟨row'', mem'', same'⟩ := second row' mem'
  exact ⟨row'', mem'', same'.trans same⟩

theorem Effect.remain (effect : Effect lint may s s') : Remain s s' := by
  intro row mem
  have listed : row.site ∈ s'.steps.map StepRow.site := by
    rcases effect.sites with same | ⟨_, _, _, _, _, grown⟩
    · rw [same]
      exact mem_map_of_mem mem
    · rw [grown]
      exact mem_append_left _ (mem_map_of_mem mem)
  obtain ⟨row', mem', same⟩ := mem_map.mp listed
  exact ⟨row', mem', same⟩

end Sites

end Agentloom.Store
