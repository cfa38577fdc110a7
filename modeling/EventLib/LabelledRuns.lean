import Mathlib.Data.List.Basic

namespace LabelledRuns

-- Every choice of the environment sits in the label, so one label list is one
-- run. `none` is a step that has no defined result, not a failed operation.
section Deterministic
variable {σ ι : Type} {step : σ → ι → Option σ}

def exec (step : σ → ι → Option σ) : σ → List ι → Option σ
  | s,[] => some s
  | s,label::rest => (step s label).bind (exec step · rest)

-- `holds` is asked of each state of the run with the label taken there.
def Along (step : σ → ι → Option σ) (holds : σ → ι → Prop) : σ → List ι → Prop
  | _,[] => True
  | s,label::rest => holds s label ∧ ∀ next, step s label = some next → Along step holds next rest

theorem along_cons {holds : σ → ι → Prop} (one : step s label = some next) :
    Along step holds s (label::rest) ↔ holds s label ∧ Along step holds next rest := by
  constructor
  · intro all
    exact ⟨all.1,all.2 next one⟩
  · intro both
    refine ⟨both.1,?_⟩
    intro other same
    cases Option.some.inj (one.symm.trans same)
    exact both.2

instance decidableAlong {holds : σ → ι → Prop} [∀ s label, Decidable (holds s label)] :
    ∀ s trace, Decidable (Along step holds s trace)
  | _,[] => isTrue trivial
  | s,label::rest =>
    match one : step s label with
    | none => decidable_of_iff (holds s label)
        ⟨fun now => ⟨now,fun _ same => by rw [one] at same; cases same⟩,fun all => all.1⟩
    | some next =>
      have : Decidable (Along step holds next rest) := decidableAlong next rest
      decidable_of_iff (holds s label ∧ Along step holds next rest) (along_cons one).symm

def After (step : σ → ι → Option σ) (holds : σ → Prop) (s : σ) (label : ι) : Prop :=
  ∀ next, step s label = some next → holds next

instance decidableAfter {holds : σ → Prop} [DecidablePred holds] (s : σ) (label : ι) : Decidable (After step holds s label) :=
  match one : step s label with
  | none => isTrue fun _ same => by rw [one] at same; cases same
  | some after => decidable_of_iff (holds after)
      ⟨fun held _ same => by rw [one] at same; cases same; exact held,fun all => all after one⟩

theorem exec_cons : exec step s (label::rest) = some last ↔
    ∃ next, step s label = some next ∧ exec step next rest = some last := by
  simp only [exec,Option.bind_eq_some_iff]

theorem exec_append : exec step s (first++second) = (exec step s first).bind (exec step · second) := by
  induction first generalizing s with
  | nil => rfl
  | cons label rest ih =>
    simp only [List.cons_append,exec,Option.bind_assoc]
    congr 1
    funext next
    exact ih

-- The guard is assumed at every step of this one run; the invariant need not
-- survive steps that break it.
theorem exec_guarded {invariant : σ → Prop} {guard : σ → ι → Prop}
    (preserved : ∀ s label next, invariant s → guard s label → step s label = some next → invariant next)
    (start : invariant s) (guarded : Along step guard s trace) (ran : exec step s trace = some last) :
    invariant last := by
  induction trace generalizing s with
  | nil => cases Option.some.inj ran; exact start
  | cons label rest ih =>
    obtain ⟨next,one,tail⟩ := exec_cons.mp ran
    exact ih (preserved s label next start guarded.1 one) (guarded.2 next one) tail

theorem exec_total {invariant : σ → Prop} {guard : σ → ι → Prop}
    (progress : ∀ s label, invariant s → guard s label → ∃ next, step s label = some next ∧ invariant next)
    (start : invariant s) (guarded : Along step guard s trace) :
    ∃ last, exec step s trace = some last ∧ invariant last := by
  induction trace generalizing s with
  | nil => exact ⟨s,rfl,start⟩
  | cons label rest ih =>
    obtain ⟨next,one,valid⟩ := progress s label start guarded.1
    obtain ⟨last,tail,final⟩ := ih valid (guarded.2 next one)
    exact ⟨last,exec_cons.mpr ⟨next,one,tail⟩,final⟩

theorem along_guarded {invariant : σ → Prop} {guard holds : σ → ι → Prop}
    (preserved : ∀ s label next, invariant s → guard s label → step s label = some next → invariant next)
    (gives : ∀ s label, invariant s → guard s label → holds s label)
    (start : invariant s) (guarded : Along step guard s trace) : Along step holds s trace := by
  induction trace generalizing s with
  | nil => trivial
  | cons label rest ih =>
    refine ⟨gives s label start guarded.1,?_⟩
    intro next one
    exact ih (preserved s label next start guarded.1 one) (guarded.2 next one)

-- What can be seen of a run is a run of the specification.
theorem exec_view {τ : Type} {spec : τ → ι → Option τ} {view : σ → τ} {invariant : σ → Prop} {guard : σ → ι → Prop}
    (same : ∀ s label, invariant s → guard s label → (step s label).map view = spec (view s) label)
    (preserved : ∀ s label next, invariant s → guard s label → step s label = some next → invariant next)
    (start : invariant s) (guarded : Along step guard s trace) : (exec step s trace).map view = exec spec (view s) trace := by
  induction trace generalizing s with
  | nil => rfl
  | cons label rest ih =>
    have seen := same s label start guarded.1
    rw [exec,exec,← seen]
    cases one : step s label with
    | none => rfl
    | some next => exact ih (preserved s label next start guarded.1 one) (guarded.2 next one)

theorem along_of_forall {guard : ι → Prop} (all : ∀ label ∈ trace, guard label) :
    Along step (fun _ label => guard label) s trace := by
  induction trace generalizing s with
  | nil => trivial
  | cons label rest ih =>
    refine ⟨all label List.mem_cons_self,?_⟩
    intro next _
    exact ih fun label member => all label (List.mem_cons_of_mem _ member)

theorem along_suffix {holds : σ → ι → Prop} (all : Along step holds s (first++second)) (ran : exec step s first = some last) :
    Along step holds last second := by
  induction first generalizing s with
  | nil =>
    cases Option.some.inj ran
    exact all
  | cons label rest ih =>
    obtain ⟨next,one,tail⟩ := exec_cons.mp ran
    exact ih (all.2 next one) tail

theorem along_true : Along step (fun _ _ => True) s trace := by
  induction trace generalizing s with
  | nil => trivial
  | cons label rest ih => exact ⟨trivial,fun next _ => ih⟩

theorem along_and {left right : σ → ι → Prop} : Along step (fun s label => left s label ∧ right s label) s trace ↔
    Along step left s trace ∧ Along step right s trace := by
  induction trace generalizing s with
  | nil => exact ⟨fun _ => ⟨trivial,trivial⟩,fun _ => trivial⟩
  | cons label rest ih =>
    constructor
    · intro both
      exact ⟨⟨both.1.1,fun next one => (ih.mp (both.2 next one)).1⟩,both.1.2,fun next one => (ih.mp (both.2 next one)).2⟩
    · intro each
      exact ⟨⟨each.1.1,each.2.1⟩,fun next one => ih.mpr ⟨each.1.2 next one,each.2.2 next one⟩⟩

-- Exactness of a guard over whole runs. The invariant only has to survive the
-- steps at which the property itself holds, so a first violation may break it.
theorem along_iff {invariant : σ → Prop} {premise guard holds : σ → ι → Prop}
    (exact_at : ∀ s label, invariant s → premise s label → (holds s label ↔ guard s label))
    (preserved : ∀ s label next, invariant s → premise s label → holds s label → step s label = some next → invariant next)
    (start : invariant s) (given : Along step premise s trace) :
    Along step holds s trace ↔ Along step guard s trace := by
  induction trace generalizing s with
  | nil => exact Iff.rfl
  | cons label rest ih =>
    have here := exact_at s label start given.1
    constructor
    · intro held
      refine ⟨here.mp held.1,?_⟩
      intro next one
      exact (ih (preserved s label next start given.1 held.1 one) (given.2 next one)).mp (held.2 next one)
    · intro guarded
      refine ⟨here.mpr guarded.1,?_⟩
      intro next one
      exact (ih (preserved s label next start given.1 (here.mpr guarded.1) one) (given.2 next one)).mpr (guarded.2 next one)

theorem along_congr {guard holds : σ → ι → Prop} (same : ∀ s label, holds s label ↔ guard s label) :
    Along step holds s trace ↔ Along step guard s trace :=
  along_iff (fun s label _ _ => same s label) (fun _ _ _ _ _ _ _ => trivial) (show (fun _ => True) s from trivial) along_true

end Deterministic
end LabelledRuns
