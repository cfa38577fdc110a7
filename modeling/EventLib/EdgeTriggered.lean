import EventLib.LabelledRuns

namespace EdgeTriggered
open LabelledRuns

-- A source of work behind one edge-triggered registration. `arrive` is the
-- outside world's, `report` hands a readiness to the program, `handle` is the
-- program's answer to it.
structure Device (ω α ρ β : Type) where
  arrive : ω → α → ω
  report : ω → ρ → Option ω
  handle : ω → β → Option ω

-- `edge` is up from an arrival until the next report; `waiting` is the program
-- asking for reports, as opposed to handling one.
structure State (ω : Type) where
  work : ω
  edge : Bool
  waiting : Bool

inductive Action (α ρ β : Type) where
  | arrive (arrival : α)
  | report (readiness : ρ)
  | handle (reaction : β)

variable {ω α ρ β : Type}

def step (d : Device ω α ρ β) (s : State ω) : Action α ρ β → Option (State ω)
  | .arrive arrival => some ⟨d.arrive s.work arrival,true,s.waiting⟩
  | .report readiness =>
    if s.waiting ∧ s.edge then (d.report s.work readiness).map fun work => ⟨work,false,false⟩ else none
  | .handle reaction =>
    if s.waiting then none else (d.handle s.work reaction).map fun work => ⟨work,s.edge,true⟩

-- Nothing will ever be reported about the work that is left.
def Stranded (idle : ω → Prop) (s : State ω) : Prop := s.waiting = true ∧ s.edge = false ∧ ¬ idle s.work

instance {idle : ω → Prop} [DecidablePred idle] (s : State ω) : Decidable (Stranded idle s) :=
  inferInstanceAs (Decidable (_ ∧ _ ∧ ¬ _))

-- A reaction leaves nothing behind, unless the edge is up again.
def Clears (d : Device ω α ρ β) (idle : ω → Prop) (s : State ω) : Action α ρ β → Prop
  | .handle reaction => s.waiting = false → s.edge = false → ∀ work, d.handle s.work reaction = some work → idle work
  | _ => True

variable {d : Device ω α ρ β} {idle : ω → Prop}

theorem clears_exact (s : State ω) (action : Action α ρ β) :
    After (step d) (fun next => ¬ Stranded idle next) s action ↔ Clears d idle s action := by
  cases action with
  | arrive arrival => simp [After,step,Stranded,Clears]
  | report readiness =>
    refine ⟨fun _ => trivial,?_⟩
    intro _ next ran stranded
    obtain ⟨_,reported⟩ := Option.ite_none_right_eq_some.mp ran
    obtain ⟨work,_,rfl⟩ := Option.map_eq_some_iff.mp reported
    cases stranded.1
  | handle reaction =>
    constructor
    · intro after busy low work handled
      by_contra left
      refine after ⟨work,s.edge,true⟩ ?_ ⟨rfl,low,left⟩
      simp [step,busy,handled]
    · intro clears next ran stranded
      obtain ⟨busy,handled⟩ := Option.ite_none_left_eq_some.mp ran
      obtain ⟨work,did,rfl⟩ := Option.map_eq_some_iff.mp handled
      exact stranded.2.2 (clears (by simpa using busy) stranded.2.1 work did)

-- Only a reaction can strand work, so a run is safe exactly as far as its
-- reactions clear.
theorem never_stranded_iff (s : State ω) (actions : List (Action α ρ β)) :
    Along (step d) (After (step d) fun next => ¬ Stranded idle next) s actions ↔ Along (step d) (Clears d idle) s actions :=
  along_congr clears_exact

section Counting

def arrivals (actions : List (Action α ρ β)) : List α :=
  actions.filterMap fun
    | .arrive arrival => some arrival
    | _ => none

-- The reactions that are still due for what arrived already.
def due (s : State ω) : Nat := s.edge.toNat+(!s.waiting).toNat

-- A count that only reactions raise, by one at most, cannot outgrow the arrivals.
theorem count_le_arrivals (count : ω → Nat) (arrived : ∀ work arrival, count (d.arrive work arrival) ≤ count work)
    (reported : ∀ work readiness after, d.report work readiness = some after → count after ≤ count work)
    (handled : ∀ work reaction after, d.handle work reaction = some after → count after ≤ count work+1)
    {actions : List (Action α ρ β)} {s last : State ω} (ran : exec (step d) s actions = some last) :
    count last.work+due last ≤ count s.work+due s+(arrivals actions).length := by
  induction actions generalizing s with
  | nil =>
    cases Option.some.inj ran
    exact Nat.le_refl _
  | cons action rest ih =>
    obtain ⟨next,one,ran⟩ := exec_cons.mp ran
    have later := ih ran
    cases action with
    | arrive arrival =>
      cases Option.some.inj one
      have grown := arrived s.work arrival
      have more : (arrivals (.arrive arrival::rest : List (Action α ρ β))).length = (arrivals rest).length+1 := rfl
      simp only [due,Bool.toNat_true] at later ⊢
      omega
    | report readiness =>
      obtain ⟨⟨idle,up⟩,one⟩ := Option.ite_none_right_eq_some.mp one
      obtain ⟨work,did,rfl⟩ := Option.map_eq_some_iff.mp one
      have kept := reported s.work readiness work did
      have same : arrivals (.report readiness::rest : List (Action α ρ β)) = arrivals rest := rfl
      simp only [due,idle,up,same,Bool.not_true,Bool.not_false,Bool.toNat_true,Bool.toNat_false] at later ⊢
      omega
    | handle reaction =>
      obtain ⟨busy,one⟩ := Option.ite_none_left_eq_some.mp one
      obtain ⟨work,did,rfl⟩ := Option.map_eq_some_iff.mp one
      have grown := handled s.work reaction work did
      have same : arrivals (.handle reaction::rest : List (Action α ρ β)) = arrivals rest := rfl
      have handling : s.waiting = false := by simpa using busy
      simp only [due,handling,same,Bool.not_true,Bool.not_false,Bool.toNat_true,Bool.toNat_false] at later ⊢
      omega

end Counting

end EdgeTriggered
