import EventLib.LabelledRuns
import Mathlib.Algebra.BigOperators.Group.Finset.Piecewise
import Mathlib.Algebra.Order.BigOperators.Group.Finset
import Mathlib.Data.Fintype.Card

namespace EventLib.Rwlocks
open LabelledRuns

structure Rwlock where
  read : Int
  write : Int
deriving DecidableEq

def rwlockInit : Rwlock := ⟨0,0⟩

def INT_MAX : Int := 2^31-1

-- `__sync_add_and_fetch` and `__sync_sub_and_fetch` on an int.
def syncAdd (value delta : Int) : Int := (value+delta).bmod (2^32)

-- The next atomic access of a thread. `reading` and `writing` are the spans
-- between a lock call's return and the unlock call's only access.
inductive Pc where
  | out
  | rlockWhile | rlockAdd | rlockIf | rlockSub | reading
  | wlockSet | wlockWhile | writing
deriving DecidableEq

inductive Side where
  | reader | writer
deriving DecidableEq

structure State (τ : Type) where
  lock : Rwlock
  pc : τ → Pc

-- One access, by a thread at `pc`; `side` is the caller's choice outside.
def access (lock : Rwlock) (side : Side) : Pc → Rwlock × Pc
  | .out => (lock,match side with | .reader => .rlockWhile | .writer => .wlockSet)
  | .rlockWhile => (lock,if lock.write ≠ 0 then .rlockWhile else .rlockAdd)
  | .rlockAdd => ({lock with read:=syncAdd lock.read 1},.rlockIf)
  | .rlockIf => (lock,if lock.write ≠ 0 then .rlockSub else .reading)
  | .rlockSub => ({lock with read:=syncAdd lock.read (-1)},.rlockWhile)
  | .reading => ({lock with read:=syncAdd lock.read (-1)},.out)
  | .wlockSet => ({lock with write:=1},if lock.write ≠ 0 then .wlockSet else .wlockWhile)
  | .wlockWhile => (lock,if lock.read ≠ 0 then .wlockWhile else .writing)
  | .writing => ({lock with write:=0},.out)

def Pc.counted : Pc → Bool
  | .rlockIf | .rlockSub | .reading => true
  | _ => false

def Pc.owns : Pc → Bool
  | .wlockWhile | .writing => true
  | _ => false

def weight (pc : Pc) : Nat := if pc.counted then 1 else 0

theorem syncAdd_exact {value delta : Int} (low : 0 ≤ value+delta) (high : value+delta ≤ INT_MAX) :
    syncAdd value delta = value+delta := by
  rw [INT_MAX] at high
  rw [syncAdd,Int.bmod_def]
  omega

-- Everything one access can do to the lock and to the thread that makes it, as
-- long as the count is exact.
structure Local (before after : Rwlock) (pc next : Pc) : Prop where
  taken : next.owns = true → after.write ≠ 0 ∧ (pc.owns = true ∨ before.write = 0)
  released : after.write = 0 → before.write = 0 ∨ pc.owns = true
  counts : after.read + weight pc = before.read + weight next
  admitted : next = .reading → before.write = 0
  drained : next = .writing → before.read = 0

theorem leave_counts {lock : Rwlock} (present : 1 ≤ lock.read) (bounded : lock.read ≤ INT_MAX+1) :
    syncAdd lock.read (-1) + 1 = lock.read + 0 := by
  rw [syncAdd_exact (by omega) (by omega)]
  omega

theorem access_local {lock : Rwlock} {pc : Pc} (side : Side) (owned : pc.owns = true → lock.write ≠ 0)
    (present : (weight pc : Int) ≤ lock.read)
    (bounded : lock.read + weight (access lock side pc).2 ≤ INT_MAX + weight pc) :
    Local lock (access lock side pc).1 pc (access lock side pc).2 := by
  cases pc with
  | out => cases side <;> exact ⟨nofun,Or.inl,rfl,nofun,nofun⟩
  | rlockWhile =>
    simp only [access]
    split <;> exact ⟨nofun,Or.inl,rfl,nofun,nofun⟩
  | rlockAdd =>
    have low : 0 ≤ lock.read := present
    have high : lock.read+1 ≤ INT_MAX+0 := bounded
    have sum : syncAdd lock.read 1 + 0 = lock.read + 1 := by
      rw [syncAdd_exact (by omega) (by omega)]
      omega
    exact ⟨nofun,Or.inl,sum,nofun,nofun⟩
  | rlockIf =>
    simp only [access]
    split
    · exact ⟨nofun,Or.inl,rfl,nofun,nofun⟩
    · rename_i free
      exact ⟨nofun,Or.inl,rfl,fun _ => not_not.mp free,nofun⟩
  | rlockSub =>
    have high : lock.read+0 ≤ INT_MAX+1 := bounded
    exact ⟨nofun,Or.inl,leave_counts present (by omega),nofun,nofun⟩
  | reading =>
    have high : lock.read+0 ≤ INT_MAX+1 := bounded
    exact ⟨nofun,Or.inl,leave_counts present (by omega),nofun,nofun⟩
  | wlockSet =>
    simp only [access]
    split
    · exact ⟨nofun,nofun,rfl,nofun,nofun⟩
    · rename_i free
      exact ⟨fun _ => ⟨nofun,Or.inr (not_not.mp free)⟩,nofun,rfl,nofun,nofun⟩
  | wlockWhile =>
    have held := owned rfl
    simp only [access]
    split
    · exact ⟨fun _ => ⟨held,Or.inl rfl⟩,Or.inl,rfl,nofun,nofun⟩
    · rename_i drained
      exact ⟨fun _ => ⟨held,Or.inl rfl⟩,Or.inl,rfl,nofun,fun _ => not_not.mp drained⟩
  | writing => exact ⟨nofun,fun _ => Or.inr rfl,rfl,nofun,nofun⟩

section Threads
variable {τ : Type}

def start (τ : Type) : State τ := ⟨rwlockInit,fun _ => .out⟩

def count [Fintype τ] (s : State τ) : Nat := (Finset.univ.filter fun t => (s.pc t).counted = true).card

structure Exclusive [Fintype τ] (s : State τ) : Prop where
  owned : ∀ t, (s.pc t).owns = true → s.lock.write ≠ 0
  single : ∀ t u, (s.pc t).owns = true → (s.pc u).owns = true → t = u
  counts : s.lock.read = count s
  apart : ∀ t u, s.pc t = .writing → s.pc u ≠ .reading

theorem count_sum [Fintype τ] (s : State τ) : count s = ∑ t, weight (s.pc t) := by
  rw [count,Finset.card_filter]
  rfl

theorem weight_le_count [Fintype τ] (s : State τ) (t : τ) : weight (s.pc t) ≤ count s := by
  rw [count_sum]
  exact Finset.single_le_sum (f := fun t => weight (s.pc t)) (fun _ _ => Nat.zero_le _) (Finset.mem_univ t)

theorem start_exclusive [Fintype τ] : Exclusive (start τ) := by
  refine ⟨nofun,nofun,?_,nofun⟩
  have none_counted : count (start τ) = 0 := by simp [count,start,Pc.counted]
  rw [none_counted]
  rfl

theorem enter_alone [Fintype τ] {s : State τ} {lock : Rwlock} {pc : Pc} {t u : τ} (exclusive : Exclusive s)
    (moves : Local s.lock lock (s.pc t) pc) (taking : pc.owns = true) (away : u ≠ t) : (s.pc u).owns ≠ true := by
  intro owner
  rcases (moves.taken taking).2 with mine | free
  · exact away (exclusive.single u t owner mine)
  · exact exclusive.owned u owner free

variable [DecidableEq τ]

def State.move (s : State τ) (t : τ) (lock : Rwlock) (pc : Pc) : State τ := ⟨lock,Function.update s.pc t pc⟩

def step (s : State τ) : τ × Side → Option (State τ)
  | (t,side) => some (s.move t (access s.lock side (s.pc t)).1 (access s.lock side (s.pc t)).2)

theorem move_cases (s : State τ) (t : τ) (lock : Rwlock) (pc : Pc) (u : τ) :
    u = t ∧ (s.move t lock pc).pc u = pc ∨ u ≠ t ∧ (s.move t lock pc).pc u = s.pc u := by
  by_cases here : u = t
  · subst here
    exact Or.inl ⟨rfl,Function.update_self ..⟩
  · exact Or.inr ⟨here,Function.update_of_ne here ..⟩

variable [Fintype τ]

-- The int does not overflow: at most INT_MAX threads are counted after the step.
def Bounded (s : State τ) (label : τ × Side) : Prop := After step (fun next => (count next : Int) ≤ INT_MAX) s label

instance (s : State τ) (label : τ × Side) : Decidable (Bounded s label) := inferInstanceAs (Decidable (After ..))

theorem count_move (s : State τ) (t : τ) (lock : Rwlock) (pc : Pc) :
    count (s.move t lock pc) + weight (s.pc t) = count s + weight pc := by
  have moved : (fun u => weight ((s.move t lock pc).pc u)) = Function.update (fun u => weight (s.pc u)) t (weight pc) := by
    funext u
    rcases move_cases s t lock pc u with ⟨rfl,here⟩ | ⟨away,there⟩
    · rw [here,Function.update_self]
    · rw [there,Function.update_of_ne away]
  rw [count_sum,count_sum,moved,Finset.sum_update_of_mem (Finset.mem_univ t),
    Finset.sum_eq_add_sum_sdiff_singleton_of_mem (Finset.mem_univ t)]
  omega

section Move
variable {s : State τ} {t : τ} {lock : Rwlock} {pc : Pc}

theorem move_owned (exclusive : Exclusive s) (moves : Local s.lock lock (s.pc t) pc) (u : τ)
    (owner : ((s.move t lock pc).pc u).owns = true) : lock.write ≠ 0 := by
  rcases move_cases s t lock pc u with ⟨_,here⟩ | ⟨away,there⟩
  · rw [here] at owner
    exact (moves.taken owner).1
  · rw [there] at owner
    intro released
    rcases moves.released released with free | mine
    · exact exclusive.owned u owner free
    · exact away (exclusive.single u t owner mine)

theorem move_single (exclusive : Exclusive s) (moves : Local s.lock lock (s.pc t) pc) (u v : τ)
    (first : ((s.move t lock pc).pc u).owns = true) (second : ((s.move t lock pc).pc v).owns = true) : u = v := by
  rcases move_cases s t lock pc u with ⟨rfl,here⟩ | ⟨away,there⟩
  · rcases move_cases s u lock pc v with ⟨rfl,_⟩ | ⟨away,there⟩
    · rfl
    · rw [here] at first
      rw [there] at second
      exact absurd second (enter_alone exclusive moves first away)
  · rw [there] at first
    rcases move_cases s t lock pc v with ⟨rfl,here'⟩ | ⟨away',there'⟩
    · rw [here'] at second
      exact absurd first (enter_alone exclusive moves second away)
    · rw [there'] at second
      exact exclusive.single u v first second

theorem move_apart (exclusive : Exclusive s) (moves : Local s.lock lock (s.pc t) pc) (u v : τ)
    (writer : (s.move t lock pc).pc u = .writing) : (s.move t lock pc).pc v ≠ .reading := by
  intro reader
  rcases move_cases s t lock pc u with ⟨rfl,here⟩ | ⟨_,there⟩
  · rw [here] at writer
    rcases move_cases s u lock pc v with ⟨_,same⟩ | ⟨_,other⟩
    · rw [same,writer] at reader
      cases reader
    · -- the writer saw no counted thread, and a reader is counted
      have none_counted := moves.drained writer
      have counted := weight_le_count s v
      have counts := exclusive.counts
      rw [other] at reader
      rw [reader] at counted
      have one : weight .reading = 1 := rfl
      omega
  · rw [there] at writer
    have owner : (s.pc u).owns = true := by rw [writer]; rfl
    rcases move_cases s t lock pc v with ⟨_,same⟩ | ⟨_,other⟩
    · rw [same] at reader
      exact exclusive.owned u owner (moves.admitted reader)
    · rw [other] at reader
      exact exclusive.apart u v writer reader

end Move

theorem step_exclusive {s next : State τ} {label : τ × Side} (exclusive : Exclusive s) (bounded : Bounded s label)
    (ran : step s label = some next) : Exclusive next := by
  obtain ⟨t,side⟩ := label
  have limit := bounded next ran
  cases Option.some.inj ran
  have share := count_move s t (access s.lock side (s.pc t)).1 (access s.lock side (s.pc t)).2
  have mine := weight_le_count s t
  have counts := exclusive.counts
  have moves : Local s.lock (access s.lock side (s.pc t)).1 (s.pc t) (access s.lock side (s.pc t)).2 :=
    access_local side (exclusive.owned t) (by omega) (by omega)
  have balance := moves.counts
  refine ⟨move_owned exclusive moves,move_single exclusive moves,?_,move_apart exclusive moves⟩
  show (access s.lock side (s.pc t)).1.read = _
  omega

theorem rwlock_excludes {labels : List (τ × Side)} {last : State τ} (bounded : Along step Bounded (start τ) labels)
    (ran : exec step (start τ) labels = some last) :
    (∀ t u, last.pc t = .writing → last.pc u = .writing → t = u) ∧
    (∀ t u, last.pc t = .writing → last.pc u ≠ .reading) ∧
    last.lock.read = count last ∧ 0 ≤ last.lock.read := by
  have exclusive : Exclusive last := by
    refine exec_guarded ?_ start_exclusive bounded ran
    intro s label next exclusive bounded one
    exact step_exclusive exclusive bounded one
  refine ⟨?_,exclusive.apart,exclusive.counts,?_⟩
  · intro t u first second
    exact exclusive.single t u (by rw [first]; rfl) (by rw [second]; rfl)
  · rw [exclusive.counts]
    exact Int.natCast_nonneg _

end Threads

-- Thread 0 has raised the count when thread 1 sets the flag; it backs off and
-- thread 1 gets in.
def handover : List (Fin 2 × Side) :=
  [(0,.reader),(0,.reader),(0,.reader),(1,.writer),(1,.writer),(0,.reader),(1,.writer),(0,.reader),(1,.writer)]

theorem handover_excludes : ∃ last, exec step (start (Fin 2)) handover = some last ∧ last.pc 1 = .writing ∧
    (∀ t, last.pc t ≠ .reading) ∧ last.lock.read = count last := by
  have bounded : Along step Bounded (start (Fin 2)) handover := by decide
  have writes : (exec step (start (Fin 2)) handover).map (fun s => s.pc 1) = some .writing := by decide
  obtain ⟨last,ran,writer⟩ := Option.map_eq_some_iff.mp writes
  obtain ⟨_,apart,counts,_⟩ := rwlock_excludes bounded ran
  exact ⟨last,ran,writer,fun t => apart 1 t writer,counts⟩

end EventLib.Rwlocks
