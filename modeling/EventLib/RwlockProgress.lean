import EventLib.Rwlock

namespace EventLib.RwlockProgress
open Rwlocks LabelledRuns

section Runs
variable {τ : Type}

-- The flag is up only for a thread that took it.
def Flagged (s : State τ) : Prop := s.lock.write = 0 ∨ s.lock.write = 1 ∧ ∃ t, (s.pc t).owns = true

structure Sound [Fintype τ] (s : State τ) : Prop where
  exclusive : Exclusive s
  flagged : Flagged s

theorem start_sound [Fintype τ] : Sound (start τ) := ⟨start_exclusive,Or.inl rfl⟩

variable [DecidableEq τ]

theorem Flagged.kept {s : State τ} {t : τ} {lock : Rwlock} {pc : Pc} (flagged : Flagged s) (write : lock.write = s.lock.write)
    (owns : (s.pc t).owns = true → pc.owns = true) : Flagged (s.move t lock pc) := by
  rcases flagged with down | ⟨up,u,owner⟩
  · exact Or.inl (write.trans down)
  · refine Or.inr ⟨write.trans up,u,?_⟩
    rcases move_cases s t lock pc u with ⟨rfl,here⟩ | ⟨_,there⟩
    · rw [here]
      exact owns owner
    · rw [there]
      exact owner

theorem step_flagged {s next : State τ} {label : τ × Side} (flagged : Flagged s) (ran : step s label = some next) :
    Flagged next := by
  obtain ⟨t,side⟩ := label
  cases Option.some.inj ran
  cases here : s.pc t with
  | wlockSet =>
    rcases flagged with down | ⟨up,u,owner⟩
    · refine Or.inr ⟨rfl,t,?_⟩
      rw [show (s.move t _ _).pc t = _ from Function.update_self ..]
      simp only [access,down,ne_eq,not_true,if_false]
      rfl
    · refine Or.inr ⟨rfl,u,?_⟩
      have away : u ≠ t := by
        rintro rfl
        rw [here] at owner
        cases owner
      rw [show (s.move t _ _).pc u = _ from Function.update_of_ne away ..]
      exact owner
  | writing => exact Or.inl rfl
  | wlockWhile =>
    refine flagged.kept rfl fun _ => ?_
    simp only [access]
    split <;> rfl
  | _ => exact flagged.kept rfl fun owner => by rw [here] at owner; cases owner

variable [Fintype τ]

-- With so few threads the count of readers cannot leave the int.
theorem few_bounded (few : (Fintype.card τ : Int) ≤ INT_MAX) (s : State τ) (label : τ × Side) : Bounded s label := by
  intro next _
  have most : count next ≤ Fintype.card τ := Finset.card_le_univ _
  omega

theorem exec_sound (few : (Fintype.card τ : Int) ≤ INT_MAX) {s last : State τ} {labels : List (τ × Side)} (sound : Sound s)
    (ran : exec step s labels = some last) : Sound last := by
  refine exec_guarded ?_ sound along_true ran
  intro s label next sound _ one
  exact ⟨step_exclusive sound.exclusive (few_bounded few s label) one,step_flagged sound.flagged one⟩

end Runs

section Schedules
variable {τ : Type}

theorem counted_exists [Fintype τ] {s : State τ} (some_counted : count s ≠ 0) : ∃ t, (s.pc t).counted = true := by
  obtain ⟨t,member⟩ := Finset.card_ne_zero.mp some_counted
  exact ⟨t,(Finset.mem_filter.mp member).2⟩

variable [DecidableEq τ]

def Leads (s next : State τ) : Prop := ∃ labels, exec step s labels = some next

theorem Leads.refl (s : State τ) : Leads s s := ⟨[],rfl⟩

theorem Leads.trans {s middle last : State τ} (first : Leads s middle) (second : Leads middle last) : Leads s last := by
  obtain ⟨labels,ran⟩ := first
  obtain ⟨labels',ran'⟩ := second
  refine ⟨labels++labels',?_⟩
  rw [exec_append,ran]
  exact ran'

-- A thread in a lock call or in its section makes its next access.
theorem Leads.access (s : State τ) (t : τ) (here : s.pc t = pc) :
    Leads s (s.move t (access s.lock .reader pc).1 (access s.lock .reader pc).2) := by
  subst here
  exact ⟨[(t,.reader)],rfl⟩

theorem move_here (s : State τ) (t : τ) (lock : Rwlock) (pc : Pc) : (s.move t lock pc).pc t = pc := Function.update_self ..

theorem move_move (s : State τ) (t : τ) (lock lock' : Rwlock) (pc pc' : Pc) :
    (s.move t lock pc).move t lock' pc' = s.move t lock' pc' := by
  simp only [State.move,Function.update_idem]

theorem Leads.then_access {s : State τ} {t : τ} {lock : Rwlock} {pc : Pc} (first : Leads s (s.move t lock pc)) :
    Leads s (s.move t (Rwlocks.access lock .reader pc).1 (Rwlocks.access lock .reader pc).2) := by
  have second := Leads.access (s.move t lock pc) t (move_here ..)
  rw [move_move] at second
  exact first.trans second

theorem counted_not_owner {pc : Pc} (counted : pc.counted = true) : pc.owns = false := by
  cases pc <;> first | rfl | cases counted

-- A counted thread leaves the count by itself, through the section or by
-- backing off.
theorem counted_leaves {s : State τ} {t : τ} (counted : (s.pc t).counted = true) :
    ∃ lock pc, Leads s (s.move t lock pc) ∧ pc.counted = false ∧ pc.owns = false ∧ lock.write = s.lock.write := by
  cases here : s.pc t with
  | rlockIf =>
    have first := Leads.access s t here
    by_cases up : s.lock.write ≠ 0
    · simp only [access,if_pos up] at first
      exact ⟨_,_,first.then_access,rfl,rfl,rfl⟩
    · simp only [access,if_neg up] at first
      exact ⟨_,_,first.then_access,rfl,rfl,rfl⟩
  | rlockSub => exact ⟨_,_,Leads.access s t here,rfl,rfl,rfl⟩
  | reading => exact ⟨_,_,Leads.access s t here,rfl,rfl,rfl⟩
  | _ => rw [here] at counted; cases counted

theorem owner_leaves {s : State τ} {t : τ} (owner : (s.pc t).owns = true) (drained : s.lock.read = 0) :
    Leads s (s.move t ⟨0,0⟩ .out) := by
  cases here : s.pc t with
  | wlockWhile =>
    have first := Leads.access s t here
    simp only [access,drained,ne_eq,not_true,if_false] at first
    have second := first.then_access
    simp only [access,drained] at second
    exact second
  | writing =>
    have first := Leads.access s t here
    simp only [access,drained] at first
    exact first
  | _ => rw [here] at owner; cases owner

def goal : Pc → Pc
  | .wlockSet | .wlockWhile | .writing => .writing
  | _ => .reading

-- Alone at the lock, a caller gets in.
theorem enters_free {s : State τ} {t : τ} (free : s.lock = rwlockInit) (calling : s.pc t = .rlockWhile ∨ s.pc t = .rlockAdd ∨ s.pc t = .wlockSet) :
    ∃ next, Leads s next ∧ next.pc t = goal (s.pc t) := by
  rcases calling with here | here | here
  · have ran := (Leads.access s t here).then_access.then_access
    rw [free] at ran
    exact ⟨_,ran,by rw [move_here,here]; rfl⟩
  · have ran := (Leads.access s t here).then_access
    rw [free] at ran
    exact ⟨_,ran,by rw [move_here,here]; rfl⟩
  · have ran := (Leads.access s t here).then_access
    rw [free] at ran
    exact ⟨_,ran,by rw [move_here,here]; rfl⟩

variable [Fintype τ]

-- All of them leave; nobody else moves and the flag stays as it is.
theorem readers_leave (s : State τ) : ∃ next, Leads s next ∧ count next = 0 ∧ next.lock.write = s.lock.write ∧
    (∀ u, (s.pc u).counted = false → next.pc u = s.pc u) ∧ ∀ u, (next.pc u).owns = (s.pc u).owns := by
  induction size : count s using Nat.strongRecOn generalizing s with
  | ind size ih =>
    by_cases empty : count s = 0
    · exact ⟨s,.refl s,empty,rfl,fun _ _ => rfl,fun _ => rfl⟩
    · obtain ⟨t,counted⟩ := counted_exists empty
      obtain ⟨lock,pc,first,out,free,write⟩ := counted_leaves counted
      have share := count_move s t lock pc
      rw [weight,weight,if_pos counted,if_neg (by rw [out]; exact Bool.false_ne_true)] at share
      obtain ⟨next,rest,none_left,write',others,owners⟩ := ih (count (s.move t lock pc)) (by omega) (s.move t lock pc) rfl
      refine ⟨next,first.trans rest,none_left,write'.trans write,?_,?_⟩
      · intro u aside
        have away : u ≠ t := by
          rintro rfl
          rw [counted] at aside
          cases aside
        have kept : (s.move t lock pc).pc u = s.pc u := Function.update_of_ne away ..
        rw [← kept]
        exact others u (by rw [kept]; exact aside)
      · intro u
        rw [owners u]
        rcases move_cases s t lock pc u with ⟨rfl,here⟩ | ⟨_,there⟩
        · rw [here,free,counted_not_owner counted]
        · rw [there]

-- Any state can be brought to one with the lock as `rwlock_init` leaves it, over
-- the head of a thread that is not in the count and does not own the flag.
theorem quiet {s : State τ} {t : τ} (few : (Fintype.card τ : Int) ≤ INT_MAX) (sound : Sound s)
    (aside : (s.pc t).counted = false) (free : (s.pc t).owns = false) :
    ∃ next, Leads s next ∧ next.lock = rwlockInit ∧ next.pc t = s.pc t := by
  obtain ⟨next,leads,none_left,_,others,owners⟩ := readers_leave s
  obtain ⟨labels,ran⟩ := leads
  have sound' := exec_sound few sound ran
  have drained : next.lock.read = 0 := by
    rw [sound'.exclusive.counts,none_left]
    rfl
  rcases sound'.flagged with down | ⟨_,u,owner⟩
  · refine ⟨next,⟨labels,ran⟩,?_,others t aside⟩
    cases lock : next.lock with
    | mk read write =>
      rw [lock] at drained down
      cases drained
      cases down
      rfl
  · have away : t ≠ u := by
      rintro rfl
      rw [owners t,free] at owner
      cases owner
    refine ⟨next.move u ⟨0,0⟩ .out,.trans ⟨labels,ran⟩ (owner_leaves owner drained),rfl,?_⟩
    rw [← others t aside]
    exact Function.update_of_ne away ..

theorem caller_can_enter {s : State τ} {t : τ} (few : (Fintype.card τ : Int) ≤ INT_MAX) (sound : Sound s)
    (calling : s.pc t = .rlockWhile ∨ s.pc t = .rlockAdd ∨ s.pc t = .wlockSet) :
    ∃ next, Leads s next ∧ next.pc t = goal (s.pc t) := by
  have aside : (s.pc t).counted = false ∧ (s.pc t).owns = false := by
    rcases calling with here | here | here <;> rw [here] <;> exact ⟨rfl,rfl⟩
  obtain ⟨middle,first,free,same⟩ := quiet few sound aside.1 aside.2
  obtain ⟨next,second,entered⟩ := enters_free free (by rw [same]; exact calling)
  exact ⟨next,first.trans second,entered.trans (by rw [same])⟩

theorem backed_off_can_enter {s : State τ} {t : τ} {lock : Rwlock} (few : (Fintype.card τ : Int) ≤ INT_MAX) (sound : Sound s)
    (first : Leads s (s.move t lock .rlockWhile)) : ∃ next, Leads s next ∧ next.pc t = .reading := by
  obtain ⟨labels,ran⟩ := first
  obtain ⟨next,second,entered⟩ := caller_can_enter few (exec_sound few sound ran) (Or.inl (move_here s t ..))
  rw [move_here] at entered
  exact ⟨next,.trans ⟨labels,ran⟩ second,entered⟩

theorem every_caller_can_enter (few : (Fintype.card τ : Int) ≤ INT_MAX) {labels : List (τ × Side)} {s : State τ}
    (ran : exec step (start τ) labels = some s) (t : τ) (calls : s.pc t ≠ .out) :
    ∃ more next, exec step s more = some next ∧ next.pc t = goal (s.pc t) := by
  have sound := exec_sound few start_sound ran
  have enters : ∃ next, Leads s next ∧ next.pc t = goal (s.pc t) := by
    cases here : s.pc t with
    | out => exact absurd here calls
    | reading => exact ⟨s,.refl s,here⟩
    | writing => exact ⟨s,.refl s,here⟩
    | rlockWhile =>
      rw [← here]
      exact caller_can_enter few sound (Or.inl here)
    | rlockAdd =>
      rw [← here]
      exact caller_can_enter few sound (Or.inr (Or.inl here))
    | wlockSet =>
      rw [← here]
      exact caller_can_enter few sound (Or.inr (Or.inr here))
    | rlockSub => exact backed_off_can_enter few sound (Leads.access s t here)
    | rlockIf =>
      have first := Leads.access s t here
      by_cases up : s.lock.write ≠ 0
      · simp only [access,if_pos up] at first
        exact backed_off_can_enter few sound first.then_access
      · simp only [access,if_neg up] at first
        exact ⟨_,first,move_here ..⟩
    | wlockWhile =>
      obtain ⟨next,⟨more,drained⟩,none_left,_,others,_⟩ := readers_leave s
      have empty : next.lock.read = 0 := by
        rw [(exec_sound few sound drained).exclusive.counts,none_left]
        rfl
      have last := Leads.access next t ((others t (by rw [here]; rfl)).trans here)
      simp only [access,empty,ne_eq,not_true,if_false] at last
      exact ⟨_,.trans ⟨more,drained⟩ last,move_here ..⟩
  obtain ⟨next,⟨more,ran⟩,entered⟩ := enters
  exact ⟨more,next,ran,entered⟩

end Schedules

section Writers
variable {τ : Type}

-- How many accesses take a reader out of a writer's way once the flag is up.
def errand : Pc → Nat
  | .rlockAdd => 3
  | .rlockIf => 2
  | .rlockSub | .reading => 1
  | _ => 0

def outstanding [Fintype τ] (s : State τ) : Nat := ∑ u, errand (s.pc u)

theorem outstanding_le [Fintype τ] (s : State τ) : outstanding s ≤ 3*Fintype.card τ := by
  have each : outstanding s ≤ Finset.univ.card (α:=τ) • 3 := by
    refine Finset.sum_le_card_nsmul _ _ _ ?_
    intro u _
    cases s.pc u <;> decide
  simpa [Nat.mul_comm] using each

theorem counted_errand {pc : Pc} (counted : pc.counted = true) : errand pc ≠ 0 := by
  cases pc <;> first | decide | cases counted

theorem no_errand_no_count [Fintype τ] {s : State τ} (none_left : outstanding s = 0) : count s = 0 := by
  by_contra some_counted
  obtain ⟨t,counted⟩ := counted_exists some_counted
  exact counted_errand counted (Finset.sum_eq_zero_iff.mp none_left t (Finset.mem_univ t))

-- With the flag up an access only ever brings a reader closer to leaving.
theorem errand_access {lock : Rwlock} (up : lock.write ≠ 0) (side : Side) (pc : Pc) :
    errand (access lock side pc).2 + (if 0 < errand pc then 1 else 0) ≤ errand pc := by
  cases pc with
  | out => cases side <;> exact Nat.le_refl _
  | rlockWhile => simp [access,up,errand]
  | rlockIf => simp [access,up,errand]
  | wlockSet => simp [access,up,errand]
  | wlockWhile =>
    simp only [access]
    split <;> exact Nat.le_refl _
  | _ => exact Nat.le_refl _

theorem access_not_reading {lock : Rwlock} (up : lock.write ≠ 0) (side : Side) (pc : Pc) : (access lock side pc).2 ≠ .reading := by
  cases pc with
  | out => cases side <;> simp [access]
  | rlockWhile => simp [access,up]
  | rlockIf => simp [access,up]
  | wlockSet => simp [access,up]
  | wlockWhile =>
    simp only [access]
    split <;> simp
  | _ => simp [access]

variable [DecidableEq τ]

-- The accesses of a run made by threads that stand in a writer's way.
def errands : State τ → List (τ × Side) → Nat
  | _,[] => 0
  | s,label::rest => (if 0 < errand (s.pc label.1) then 1 else 0) + (step s label).elim 0 fun next => errands next rest

theorem flag_up_readers {s last : State τ} {labels : List (τ × Side)} (up : Along step (fun s _ => s.lock.write ≠ 0) s labels)
    (ran : exec step s labels = some last) {u : τ} (inside : last.pc u = .reading) :
    s.pc u = .reading ∧ ∀ label ∈ labels, label.1 ≠ u := by
  induction labels generalizing s with
  | nil =>
    cases Option.some.inj ran
    exact ⟨inside,nofun⟩
  | cons label rest ih =>
    obtain ⟨next,one,tail⟩ := exec_cons.mp ran
    obtain ⟨still,unmoved⟩ := ih (up.2 next one) tail
    obtain ⟨t,side⟩ := label
    cases Option.some.inj one
    have away : u ≠ t := by
      rintro rfl
      rw [show (s.move u _ _).pc u = _ from Function.update_self ..] at still
      exact access_not_reading up.1 side _ still
    rw [show (s.move t _ _).pc u = _ from Function.update_of_ne away ..] at still
    refine ⟨still,?_⟩
    intro label member
    rcases List.mem_cons.mp member with rfl | later
    · exact Ne.symm away
    · exact unmoved label later

variable [Fintype τ]

theorem outstanding_move (s : State τ) (t : τ) (lock : Rwlock) (pc : Pc) :
    outstanding (s.move t lock pc) + errand (s.pc t) = outstanding s + errand pc := by
  have moved : (fun u => errand ((s.move t lock pc).pc u)) = Function.update (fun u => errand (s.pc u)) t (errand pc) := by
    funext u
    rcases move_cases s t lock pc u with ⟨rfl,here⟩ | ⟨away,there⟩
    · rw [here,Function.update_self]
    · rw [there,Function.update_of_ne away]
  rw [outstanding,outstanding,moved,Finset.sum_update_of_mem (Finset.mem_univ t),
    Finset.sum_eq_add_sum_sdiff_singleton_of_mem (Finset.mem_univ t)]
  omega

theorem flag_up_errands {s last : State τ} {labels : List (τ × Side)} (up : Along step (fun s _ => s.lock.write ≠ 0) s labels)
    (ran : exec step s labels = some last) : errands s labels + outstanding last ≤ outstanding s := by
  induction labels generalizing s with
  | nil =>
    cases Option.some.inj ran
    exact Nat.le_of_eq (Nat.zero_add _)
  | cons label rest ih =>
    obtain ⟨next,one,tail⟩ := exec_cons.mp ran
    have later := ih (up.2 next one) tail
    have unfolded : errands s (label::rest) = (if 0 < errand (s.pc label.1) then 1 else 0) + errands next rest := by
      rw [errands,one]
      rfl
    obtain ⟨t,side⟩ := label
    cases Option.some.inj one
    dsimp only at unfolded
    have now := errand_access up.1 side (s.pc t)
    have share := outstanding_move s t (access s.lock side (s.pc t)).1 (access s.lock side (s.pc t)).2
    omega

-- From the moment a writer owns the flag until it gives it back.
theorem writer_wait_bounded (few : (Fintype.card τ : Int) ≤ INT_MAX) {before labels : List (τ × Side)} {s last : State τ} {t : τ}
    (reached : exec step (start τ) before = some s) (owned : Along step (fun s _ => (s.pc t).owns = true) s labels)
    (ran : exec step s labels = some last) :
    (∀ u, last.pc u = .reading → s.pc u = .reading ∧ ∀ label ∈ labels, label.1 ≠ u) ∧
    errands s labels + outstanding last ≤ 3*Fintype.card τ ∧
    (last.pc t = .wlockWhile → outstanding last = 0 → ∀ side, ∃ next, step last (t,side) = some next ∧ next.pc t = .writing) := by
  have sound := exec_sound few start_sound reached
  have up : Along step (fun s _ => s.lock.write ≠ 0) s labels := by
    refine along_guarded ?_ ?_ sound owned
    · intro s label next sound _ one
      exact ⟨step_exclusive sound.exclusive (few_bounded few s label) one,step_flagged sound.flagged one⟩
    · intro s label sound owner
      exact sound.exclusive.owned t owner
  refine ⟨fun u => flag_up_readers up ran,(flag_up_errands up ran).trans (outstanding_le s),?_⟩
  intro here none_left side
  have empty : last.lock.read = 0 := by
    rw [(exec_sound few sound ran).exclusive.counts,no_errand_no_count none_left]
    rfl
  refine ⟨_,rfl,?_⟩
  rw [move_here,here]
  simp only [access,empty,ne_eq,not_true,if_false]

end Writers

-- Thread 0 reads, thread 1 has raised the count, thread 2 then takes the flag.
def crowded : List (Fin 3 × Side) :=
  [(0,.reader),(0,.reader),(0,.reader),(0,.reader),(1,.reader),(1,.reader),(1,.reader),(2,.writer),(2,.writer)]

theorem crowded_can_enter : ∃ s, exec step (start (Fin 3)) crowded = some s ∧ s.pc 1 = .rlockIf ∧ s.pc 2 = .wlockWhile ∧
    (∃ more next, exec step s more = some next ∧ next.pc 1 = .reading) ∧
    ∃ more next, exec step s more = some next ∧ next.pc 2 = .writing := by
  have seen : (exec step (start (Fin 3)) crowded).map (fun s => (s.pc 1,s.pc 2)) = some (.rlockIf,.wlockWhile) := by decide
  obtain ⟨s,ran,same⟩ := Option.map_eq_some_iff.mp seen
  obtain ⟨one,two⟩ := Prod.mk.inj same
  have few : (Fintype.card (Fin 3) : Int) ≤ INT_MAX := by decide
  have reader := every_caller_can_enter few ran 1 (by rw [one]; nofun)
  have writer := every_caller_can_enter few ran 2 (by rw [two]; nofun)
  rw [one] at reader
  rw [two] at writer
  exact ⟨s,ran,one,two,reader,writer⟩

-- Both readers go, one backing off, while the writer and a new reader spin.
def clearing : List (Fin 3 × Side) := [(2,.writer),(1,.reader),(0,.reader),(1,.reader),(0,.reader),(0,.reader),(1,.reader)]

theorem clearing_bounded : ∃ s last, exec step (start (Fin 3)) crowded = some s ∧ exec step s clearing = some last ∧
    errands s clearing = 3 ∧ outstanding last = 0 ∧ (∀ u, last.pc u ≠ .reading) ∧
    ∃ next, step last (2,.writer) = some next ∧ next.pc 2 = .writing := by
  have seen : (exec step (start (Fin 3)) crowded).bind (fun s => (exec step s clearing).map fun last =>
      (errands s clearing,outstanding last,last.pc 2,decide (Along step (fun s _ => (s.pc 2).owns = true) s clearing))) =
      some (3,0,.wlockWhile,true) := by decide
  obtain ⟨s,ran,rest⟩ := Option.bind_eq_some_iff.mp seen
  obtain ⟨last,cleared,same⟩ := Option.map_eq_some_iff.mp rest
  simp only [Prod.mk.injEq,decide_eq_true_eq] at same
  obtain ⟨three,none_left,waits,owned⟩ := same
  obtain ⟨readers,_,enters⟩ := writer_wait_bounded (by decide) ran owned cleared
  refine ⟨s,last,ran,cleared,three,none_left,?_,enters waits none_left .writer⟩
  intro u inside
  have everyone : ∀ u : Fin 3, ∃ label ∈ clearing, label.1 = u := by decide
  obtain ⟨label,member,moved⟩ := everyone u
  exact (readers u inside).2 label member moved

end EventLib.RwlockProgress
