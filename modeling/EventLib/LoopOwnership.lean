import EventLib.Ownership
import EventLib.Thread

namespace EventLib.LoopOwnership
open ResourceLedger LabelledRuns
open Ownership (Memory Files)

structure PollBlocks where
  poll : Nat
  pollfd : Int
  wakeupfd : Int

-- `eventloop_init` keeps whatever `eventpoll_new` returned.
structure LoopBlocks where
  loop : Nat
  poll : Option PollBlocks

structure LoopAnswers where
  loop : Option Nat
  poll : Option Nat
  pollfd : Option Int
  wakeupfd : Option Int
  record : Option Nat

-- The threads' records, each a block of its own.
abbrev Records (τ : Type) := Threads.Table τ Nat

structure Loops (τ : Type) where
  memory : Memory
  files : Files
  loops : List LoopBlocks
  table : Records τ

-- `self` is any other call of `thread_self`, `exit` the end of a thread, which
-- runs the destructor of the key.
inductive Call (τ : Type) where
  | create (thread : τ) (answers : LoopAnswers)
  | destroy (which : Nat)
  | self (thread : τ) (answer : Option Nat)
  | exit (thread : τ)

-- The test before the first `close` of the error path is for 0, not for -1:
-- closing -1 does nothing, and a descriptor 0 is not closed.
def eventpollNew (m : Memory) (files : Files) (a : LoopAnswers) : Option (Option PollBlocks × Memory × Files) :=
  (acquire m a.poll).bind fun
    | (none,m) => some (none,m,files)
    | (some poll,m) => (acquire files a.pollfd).bind fun
      | (none,files) => some (none,release m poll,files)
      | (some pollfd,files) => (acquire files a.wakeupfd).map fun
        | (none,files) => (none,release m poll,if pollfd ≠ 0 then release files pollfd else files)
        | (some wakeupfd,files) => (some ⟨poll,pollfd,wakeupfd⟩,m,files)

def eventpollFree (m : Memory) (files : Files) (p : PollBlocks) : Memory × Files :=
  (release m p.poll,release (release files p.pollfd) p.wakeupfd)

-- Without a poll `eventpoll_free` reads through NULL.
def eventloopFree (m : Memory) (files : Files) (l : LoopBlocks) : Memory × Files :=
  match l.poll with
  | none => ({m with misused:=true},files)
  | some poll => (release (eventpollFree m files poll).1 l.loop,(eventpollFree m files poll).2)

section Steps
variable {τ : Type} [DecidableEq τ]

-- `alloc` is asked only for a thread without a record, and may refuse it one.
def threadSelf (cached : Bool) (m : Memory) (table : Records τ) (t : τ) (answer : Option Nat) : Option (Memory × Records τ) :=
  let known := (if cached then table.self t else none).or (table.specific t)
  (if known.isSome then some (none,m) else acquire m answer).map fun (_,m) => (m,(Threads.threadSelf cached table t answer).2)

def threadFree (cached : Bool) (m : Memory) (table : Records τ) (t : τ) : Memory × Records τ :=
  ((table.specific t).elim m (release m),Threads.threadFree cached table t)

-- `eventloop_init` makes the poll and then takes the calling thread's record for `me`.
def eventloopNew (cached : Bool) (m : Memory) (files : Files) (table : Records τ) (t : τ) (a : LoopAnswers) :
    Option (Option LoopBlocks × Memory × Files × Records τ) :=
  (acquire m a.loop).bind fun
    | (none,m) => some (none,m,files,table)
    | (some loop,m) => (eventpollNew m files a).bind fun (poll,m,files) =>
      (threadSelf cached m table t a.record).map fun (m,table) => (some ⟨loop,poll⟩,m,files,table)

def start : Loops τ := ⟨⟨[],false⟩,⟨[],false⟩,[],Threads.start.table⟩

def step (cached : Bool) (s : Loops τ) : Call τ → Option (Loops τ)
  | .create t answers => (eventloopNew cached s.memory s.files s.table t answers).map fun (loop,memory,files,table) =>
      ⟨memory,files,s.loops++loop.toList,table⟩
  | .destroy which => s.loops[which]?.map fun loop =>
      ⟨(eventloopFree s.memory s.files loop).1,(eventloopFree s.memory s.files loop).2,s.loops.eraseIdx which,s.table⟩
  | .self t answer => (threadSelf cached s.memory s.table t answer).map fun (memory,table) => {s with memory:=memory,table:=table}
  | .exit t => some {s with memory:=(threadFree cached s.memory s.table t).1,table:=(threadFree cached s.memory s.table t).2}

end Steps

-- What the answers amount to: the loop if it gets its block, with a poll if all
-- else is given.
def LoopAnswers.polled (a : LoopAnswers) : Option PollBlocks :=
  a.poll.bind fun poll => a.pollfd.bind fun pollfd => a.wakeupfd.map fun wakeupfd => ⟨poll,pollfd,wakeupfd⟩

def LoopAnswers.made (a : LoopAnswers) : Option LoopBlocks := a.loop.map fun loop => ⟨loop,a.polled⟩

def LoopBlocks.all (l : LoopBlocks) : List Nat := l.poll.toList.map PollBlocks.poll++[l.loop]
def LoopBlocks.fds (l : LoopBlocks) : List Int := l.poll.toList.flatMap fun poll => [poll.pollfd,poll.wakeupfd]

def LoopAnswers.lost (a : LoopAnswers) : List Int :=
  if a.loop.isSome ∧ a.poll.isSome ∧ a.pollfd = some 0 ∧ a.wakeupfd = none then [0] else []

variable {τ : Type}

def Call.lost : Call τ → List Int
  | .create _ answers => answers.lost
  | _ => []

-- Only a loop that has its poll is freed.
def Polled (s : Loops τ) : Call τ → Prop
  | .destroy which => ∀ loop ∈ s.loops[which]?, loop.poll.isSome = true
  | _ => True

-- The loops and the threads' records after a call, told from its answers alone.
def objects [DecidableEq τ] (cached : Bool) (before : List LoopBlocks × Records τ) : Call τ → List LoopBlocks × Records τ
  | .create t a => (before.1++a.made.toList,if a.loop.isSome then (Threads.threadSelf cached before.2 t a.record).2 else before.2)
  | .destroy which => (before.1.eraseIdx which,before.2)
  | .self t answer => (before.1,(Threads.threadSelf cached before.2 t answer).2)
  | .exit t => (before.1,Threads.threadFree cached before.2 t)

-- The records of the threads that have one.
structure Lists (table : Records τ) (records : List Nat) : Prop where
  once : records.Nodup
  all : ∀ thrd, thrd ∈ records ↔ ∃ t, table.specific t = some thrd

-- The books of the memory: the records and what else is held.
structure Kept (cached : Bool) (m : Memory) (table : Records τ) (held : List Nat) : Prop where
  sound : Threads.Sound cached ⟨table,fun _ => false,none⟩
  memory : ∃ records, Lists table records ∧ Accounts m (records++held)

structure Books (cached : Bool) (s : Loops τ) (lost : List Int) : Prop where
  memory : Kept cached s.memory s.table (s.loops.flatMap LoopBlocks.all)
  files : Accounts s.files (s.loops.flatMap LoopBlocks.fds++lost)

variable {cached : Bool} {m m' : Memory} {files files' : Files} {held : List Nat} {fds lost : List Int} {a : LoopAnswers}
  {table table' : Records τ} {t : τ} {answer : Option Nat} {records : List Nat} {thrd : Nat} {s next last : Loops τ}

section Polls

theorem eventpollNew_accounts {got : Option PollBlocks} (memory : Accounts m held) (opened : Accounts files fds)
    (ran : eventpollNew m files a = some (got,m',files')) :
    Accounts m' (got.toList.map PollBlocks.poll++held) ∧
    Accounts files' ((got.toList.flatMap fun poll => [poll.pollfd,poll.wakeupfd])++
      ((if a.poll.isSome ∧ a.pollfd = some 0 ∧ a.wakeupfd = none then [0] else [])++fds)) := by
  obtain ⟨_,poll,pollfd,wakeupfd⟩ := a
  obtain ⟨⟨first,m₁⟩,taken,body⟩ := Option.bind_eq_some_iff.mp ran
  obtain ⟨rfl,memory⟩ := acquire_accounts memory taken
  cases first with
  | none =>
    cases Option.some.inj body
    exact ⟨memory,opened⟩
  | some poll =>
    obtain ⟨⟨second,files₁⟩,taken,body⟩ := Option.bind_eq_some_iff.mp body
    obtain ⟨rfl,opened⟩ := acquire_accounts opened taken
    cases second with
    | none =>
      cases Option.some.inj body
      exact ⟨release_accounts memory,opened⟩
    | some pollfd =>
      obtain ⟨⟨third,files₂⟩,taken,same⟩ := Option.map_eq_some_iff.mp body
      obtain ⟨rfl,opened⟩ := acquire_accounts opened taken
      cases third with
      | none =>
        cases same
        refine ⟨release_accounts memory,?_⟩
        by_cases zero : pollfd = 0
        · subst zero
          exact opened
        · have closed := release_accounts opened
          simpa [zero] using closed
      | some wakeupfd =>
        cases same
        refine ⟨memory,opened.reorder ?_⟩
        simpa using List.Perm.swap pollfd wakeupfd fds

theorem eventloopFree_accounts {l : LoopBlocks} (polled : l.poll.isSome = true) (memory : Accounts m (l.all++held))
    (opened : Accounts files (l.fds++fds)) :
    Accounts (eventloopFree m files l).1 held ∧ Accounts (eventloopFree m files l).2 fds := by
  obtain ⟨loop,poll⟩ := l
  obtain ⟨poll,rfl⟩ := Option.isSome_iff_exists.mp polled
  exact ⟨release_accounts (release_accounts memory),release_accounts (release_accounts opened)⟩

theorem eventpollNew_misused {got : Option PollBlocks} (bad : m.misused = true) (ran : eventpollNew m files a = some (got,m',files')) :
    m'.misused = true := by
  obtain ⟨⟨poll,m₁⟩,taken,body⟩ := Option.bind_eq_some_iff.mp ran
  have kept := acquire_misused bad taken
  cases poll with
  | none =>
    cases Option.some.inj body
    exact kept
  | some poll =>
    obtain ⟨⟨pollfd,files₁⟩,_,body⟩ := Option.bind_eq_some_iff.mp body
    cases pollfd with
    | none =>
      cases Option.some.inj body
      exact release_misused kept
    | some pollfd =>
      obtain ⟨⟨wakeupfd,files₂⟩,_,same⟩ := Option.map_eq_some_iff.mp body
      cases wakeupfd with
      | none =>
        cases same
        exact release_misused kept
      | some wakeupfd =>
        cases same
        exact kept

theorem eventpollNew_polled {got : Option PollBlocks} (ran : eventpollNew m files a = some (got,m',files')) : got = a.polled := by
  obtain ⟨_,poll,pollfd,wakeupfd,_⟩ := a
  obtain ⟨⟨first,m₁⟩,taken,body⟩ := Option.bind_eq_some_iff.mp ran
  cases acquire_answer taken
  cases poll with
  | none =>
    cases Option.some.inj body
    rfl
  | some poll =>
    obtain ⟨⟨second,files₁⟩,taken,body⟩ := Option.bind_eq_some_iff.mp body
    cases acquire_answer taken
    cases pollfd with
    | none =>
      cases Option.some.inj body
      rfl
    | some pollfd =>
      obtain ⟨⟨third,files₂⟩,taken,same⟩ := Option.map_eq_some_iff.mp body
      cases acquire_answer taken
      cases wakeupfd with
      | none =>
        cases same
        rfl
      | some wakeupfd =>
        cases same
        rfl

end Polls

section Tables

-- A block that is not held is no thread's record.
theorem Lists.fresh (lists : Lists table records) (own : Threads.Owned table.specific table.tid) (unused : thrd ∉ records) :
    Threads.Fresh table (some thrd) := by
  rintro other ⟨⟩
  cases owner : table.tid thrd with
  | none => rfl
  | some t => exact absurd ((lists.all thrd).mpr ⟨t,(own t thrd).mpr owner⟩) unused

-- The cache holds nothing the key does not.
theorem known_specific (sound : Threads.Sound cached ⟨table,fun _ => false,none⟩) (t : τ) :
    (if cached then table.self t else none).or (table.specific t) = table.specific t := by
  cases cached with
  | false => rfl
  | true =>
    cases hit : table.self t with
    | none => simp
    | some thrd =>
      have mine : table.specific t = some thrd := (sound.cache t thrd hit).2
      simp [mine]

variable [DecidableEq τ]

theorem lists_enter (lists : Lists table records) (missing : table.specific t = none) (unused : thrd ∉ records)
    (same : table'.specific = Function.update table.specific t (some thrd)) : Lists table' (thrd::records) := by
  refine ⟨List.nodup_cons.mpr ⟨unused,lists.once⟩,?_⟩
  intro other
  rw [List.mem_cons,lists.all,same]
  constructor
  · rintro (rfl | ⟨u,theirs⟩)
    · exact ⟨t,Function.update_self ..⟩
    · have away : u ≠ t := by
        rintro rfl
        rw [missing] at theirs
        cases theirs
      exact ⟨u,(Function.update_of_ne away ..).trans theirs⟩
  · rintro ⟨u,theirs⟩
    by_cases me : u = t
    · subst me
      rw [Function.update_self] at theirs
      exact Or.inl (Option.some.inj theirs).symm
    · rw [Function.update_of_ne me] at theirs
      exact Or.inr ⟨u,theirs⟩

theorem lists_remove (lists : Lists table records) (own : Threads.Owned table.specific table.tid)
    (mine : table.specific t = some thrd) : Lists (Threads.threadFree cached table t) (records.erase thrd) := by
  refine ⟨lists.once.erase thrd,?_⟩
  intro other
  rw [lists.once.mem_erase_iff,lists.all]
  constructor
  · rintro ⟨different,u,theirs⟩
    have away : u ≠ t := by
      rintro rfl
      exact different (Option.some.inj (theirs.symm.trans mine))
    refine ⟨u,?_⟩
    rw [Threads.free_specific,if_neg away]
    exact theirs
  · rintro ⟨u,theirs⟩
    rw [Threads.free_specific] at theirs
    by_cases me : u = t
    · rw [if_pos me] at theirs
      cases theirs
    · rw [if_neg me] at theirs
      refine ⟨?_,u,theirs⟩
      rintro rfl
      exact me (Option.some.inj (((own u other).mp theirs).symm.trans ((own t other).mp mine)))

theorem threadSelf_kept (kept : Kept cached m table held) (ran : threadSelf cached m table t answer = some (m',table')) :
    Kept cached m' table' held := by
  obtain ⟨sound,records,lists,memory⟩ := kept
  have called := Threads.threadSelf_called sound t answer
  obtain ⟨⟨got,m₁⟩,taken,same⟩ := Option.map_eq_some_iff.mp ran
  rw [known_specific sound] at taken
  cases same
  generalize Threads.threadSelf cached table t answer = result at called
  cases called with
  | found mine =>
    have mine : table.specific t = some _ := mine
    rw [mine,Option.isSome_some,if_pos rfl] at taken
    cases Option.some.inj taken
    exact ⟨sound,records,lists,memory⟩
  | refused missing refused =>
    have missing : table.specific t = none := missing
    rw [missing,refused,Option.isSome_none,if_neg Bool.false_ne_true] at taken
    exact ⟨sound,records,lists,(acquire_accounts memory taken).2⟩
  | @entered thrd missing granted =>
    have missing : table.specific t = none := missing
    rw [missing,granted,Option.isSome_none,if_neg Bool.false_ne_true] at taken
    obtain ⟨_,after⟩ := acquire_accounts memory taken
    have unused : thrd ∉ records := fun used => (List.nodup_cons.mp after.once).1 (List.mem_append_left held used)
    refine ⟨?_,thrd::records,lists_enter lists missing unused rfl,after⟩
    exact Threads.called_sound sound rfl (lists.fresh sound.own unused) (.entered missing rfl)

theorem threadFree_kept (kept : Kept cached m table held) :
    Kept cached (threadFree cached m table t).1 (threadFree cached m table t).2 held := by
  obtain ⟨sound,records,lists,memory⟩ := kept
  have freed := Threads.free_sound (t:=t) sound
  have after : Threads.Sound cached ⟨Threads.threadFree cached table t,fun _ => false,none⟩ :=
    ⟨freed.own,freed.cache,fun u gone => absurd gone Bool.false_ne_true,fun u thrd made => by cases made⟩
  cases mine : table.specific t with
  | none =>
    have same : Threads.threadFree cached table t = table := by rw [Threads.threadFree,mine]
    refine ⟨after,records,?_,?_⟩
    · show Lists (Threads.threadFree cached table t) records
      rw [same]
      exact lists
    · rw [threadFree,mine]
      exact memory
  | some thrd =>
    have member : thrd ∈ records := (lists.all thrd).mpr ⟨t,mine⟩
    have split := (List.perm_cons_erase member).append_right held
    refine ⟨after,records.erase thrd,lists_remove lists sound.own mine,?_⟩
    rw [threadFree,mine]
    exact release_accounts (memory.reorder split)

theorem threadSelf_misused (bad : m.misused = true) (ran : threadSelf cached m table t answer = some (m',table')) :
    m'.misused = true := by
  obtain ⟨⟨got,m₁⟩,taken,same⟩ := Option.map_eq_some_iff.mp ran
  cases same
  generalize (if cached then table.self t else none).or (table.specific t) = known at taken
  cases known with
  | none =>
    rw [Option.isSome_none,if_neg Bool.false_ne_true] at taken
    exact acquire_misused bad taken
  | some thrd =>
    cases Option.some.inj taken
    exact bad

theorem threadFree_misused (cached : Bool) (table : Records τ) (t : τ) (bad : m.misused = true) :
    (threadFree cached m table t).1.misused = true := by
  rw [threadFree]
  cases table.specific t with
  | none => exact bad
  | some thrd => exact release_misused bad

end Tables

section Runs
variable [DecidableEq τ]

theorem create_books (books : Books cached s lost) (ran : step cached s (.create t a) = some next) :
    Books cached next (a.lost++lost) := by
  obtain ⟨⟨loop,memory,files,table⟩,made,rfl⟩ := Option.map_eq_some_iff.mp ran
  obtain ⟨⟨first,m₁⟩,taken,body⟩ := Option.bind_eq_some_iff.mp made
  obtain ⟨sound,records,lists,held⟩ := books.memory
  obtain ⟨given,held⟩ := acquire_accounts held taken
  subst given
  unfold LoopAnswers.lost
  cases granted : a.loop with
  | none =>
    rw [granted] at body held
    cases Option.some.inj body
    have same : s.loops++(none : Option LoopBlocks).toList = s.loops := List.append_nil _
    constructor
    · dsimp only
      rw [same]
      exact ⟨sound,records,lists,held⟩
    · dsimp only
      rw [same]
      exact books.files
  | some loop =>
    rw [granted] at body held
    obtain ⟨⟨poll,m₂,files₂⟩,polled,body⟩ := Option.bind_eq_some_iff.mp body
    obtain ⟨⟨m₃,table₃⟩,named,same⟩ := Option.map_eq_some_iff.mp body
    cases same
    obtain ⟨memory,opened⟩ := eventpollNew_accounts held books.files polled
    simp only [Option.isSome_some,true_and,Option.toList_some]
    constructor
    · refine threadSelf_kept ⟨sound,records,lists,memory.reorder ?_⟩ named
      rw [List.flatMap_append,List.flatMap_singleton,LoopBlocks.all,← List.append_assoc,← List.append_assoc records]
      exact List.perm_append_comm
    · refine opened.reorder ?_
      rw [List.flatMap_append,List.flatMap_singleton,LoopBlocks.fds,List.append_assoc]
      exact ((List.perm_append_comm_assoc _ _ lost).append_left _).trans (List.perm_append_comm_assoc ..)

theorem destroy_books {which : Nat} (books : Books cached s lost) (polled : Polled s (.destroy which))
    (ran : step cached s (.destroy which) = some next) : Books cached next lost := by
  obtain ⟨l,found,rfl⟩ := Option.map_eq_some_iff.mp ran
  have own := polled l found
  obtain ⟨bound,rfl⟩ := List.getElem?_eq_some_iff.mp found
  have split := (List.getElem_cons_eraseIdx_perm bound).symm
  obtain ⟨sound,records,lists,memory⟩ := books.memory
  have memory := memory.reorder ((split.flatMap_right LoopBlocks.all).append_left records)
  have opened := books.files.reorder ((split.flatMap_right LoopBlocks.fds).append_right lost)
  rw [List.flatMap_cons] at memory opened
  rw [List.append_assoc] at opened
  obtain ⟨memory,opened⟩ := eventloopFree_accounts own (memory.reorder (List.perm_append_comm_assoc ..)) opened
  exact ⟨⟨sound,records,lists,memory⟩,opened⟩

theorem step_books {call : Call τ} (books : Books cached s lost) (polled : Polled s call) (ran : step cached s call = some next) :
    Books cached next (call.lost++lost) := by
  cases call with
  | create t a => exact create_books books ran
  | destroy which => exact destroy_books books polled ran
  | self t answer =>
    obtain ⟨⟨m₁,table₁⟩,named,rfl⟩ := Option.map_eq_some_iff.mp ran
    exact ⟨threadSelf_kept books.memory named,books.files⟩
  | exit t =>
    cases Option.some.inj ran
    exact ⟨threadFree_kept books.memory,books.files⟩

theorem exec_books {calls : List (Call τ)} (books : Books cached s lost) (polled : Along (step cached) Polled s calls)
    (ran : exec (step cached) s calls = some last) : Books cached last (calls.flatMap Call.lost++lost) := by
  induction calls generalizing s lost with
  | nil =>
    cases Option.some.inj ran
    exact books
  | cons call rest ih =>
    obtain ⟨next,one,ran⟩ := exec_cons.mp ran
    have after := ih (step_books books polled.1 one) (polled.2 next one) ran
    refine ⟨after.memory,after.files.reorder (List.Perm.append_left _ ?_)⟩
    rw [List.flatMap_cons,List.append_assoc]
    exact List.perm_append_comm_assoc ..

theorem step_misused {call : Call τ} (bad : s.memory.misused = true) (ran : step cached s call = some next) :
    next.memory.misused = true := by
  cases call with
  | create t a =>
    obtain ⟨⟨loop,memory,files,table⟩,made,rfl⟩ := Option.map_eq_some_iff.mp ran
    obtain ⟨⟨loop,m₁⟩,taken,body⟩ := Option.bind_eq_some_iff.mp made
    have kept := acquire_misused bad taken
    cases loop with
    | none =>
      cases Option.some.inj body
      exact kept
    | some loop =>
      obtain ⟨⟨poll,m₂,files₂⟩,polled,body⟩ := Option.bind_eq_some_iff.mp body
      obtain ⟨⟨m₃,table₃⟩,named,same⟩ := Option.map_eq_some_iff.mp body
      cases same
      exact threadSelf_misused (eventpollNew_misused kept polled) named
  | destroy which =>
    obtain ⟨⟨loop,poll⟩,_,rfl⟩ := Option.map_eq_some_iff.mp ran
    cases poll with
    | none => rfl
    | some poll => exact release_misused (release_misused bad)
  | self t answer =>
    obtain ⟨⟨m₁,table₁⟩,named,rfl⟩ := Option.map_eq_some_iff.mp ran
    exact threadSelf_misused bad named
  | exit t =>
    cases Option.some.inj ran
    exact threadFree_misused cached s.table t bad

theorem unpolled_misused {which : Nat} (unpolled : ¬ Polled s (.destroy which)) (ran : step cached s (.destroy which) = some next) :
    next.memory.misused = true := by
  obtain ⟨⟨loop,poll⟩,found,rfl⟩ := Option.map_eq_some_iff.mp ran
  cases poll with
  | none => rfl
  | some poll =>
    refine absurd ?_ unpolled
    intro l here
    cases Option.some.inj (found.symm.trans here)
    rfl

theorem exec_misused {calls : List (Call τ)} (bad : s.memory.misused = true) (ran : exec (step cached) s calls = some last) :
    last.memory.misused = true := by
  induction calls generalizing s with
  | nil =>
    cases Option.some.inj ran
    exact bad
  | cons call rest ih =>
    obtain ⟨next,one,ran⟩ := exec_cons.mp ran
    exact ih (step_misused bad one) ran

theorem misused_unless_polled {calls : List (Call τ)} (ran : exec (step cached) s calls = some last)
    (clean : last.memory.misused = false) : Along (step cached) Polled s calls := by
  induction calls generalizing s with
  | nil => trivial
  | cons call rest ih =>
    obtain ⟨next,one,ran⟩ := exec_cons.mp ran
    have stays : next.memory.misused = false := by
      by_contra bad
      have still := exec_misused (eq_true_of_ne_false bad) ran
      rw [clean] at still
      cases still
    refine (along_cons one).mpr ⟨?_,ih ran⟩
    cases call with
    | create t a => trivial
    | self t answer => trivial
    | exit t => trivial
    | destroy which =>
      by_contra unpolled
      rw [unpolled_misused unpolled one] at stays
      cases stays

theorem threadSelf_table (ran : threadSelf cached m table t answer = some (m',table')) :
    table' = (Threads.threadSelf cached table t answer).2 := by
  obtain ⟨⟨got,m₁⟩,_,same⟩ := Option.map_eq_some_iff.mp ran
  cases same
  rfl

theorem step_objects {call : Call τ} (ran : step cached s call = some next) :
    (next.loops,next.table) = objects cached (s.loops,s.table) call := by
  cases call with
  | create t a =>
    obtain ⟨⟨loop,memory,files,table⟩,made,rfl⟩ := Option.map_eq_some_iff.mp ran
    obtain ⟨⟨first,m₁⟩,taken,body⟩ := Option.bind_eq_some_iff.mp made
    cases acquire_answer taken
    rw [objects,LoopAnswers.made]
    cases granted : a.loop with
    | none =>
      rw [granted] at body
      cases Option.some.inj body
      rfl
    | some loop =>
      rw [granted] at body
      obtain ⟨⟨poll,m₂,files₂⟩,polled,body⟩ := Option.bind_eq_some_iff.mp body
      obtain ⟨⟨m₃,table₃⟩,named,same⟩ := Option.map_eq_some_iff.mp body
      cases same
      rw [eventpollNew_polled polled,threadSelf_table named]
      rfl
  | destroy which =>
    obtain ⟨l,_,rfl⟩ := Option.map_eq_some_iff.mp ran
    rfl
  | self t answer =>
    obtain ⟨⟨m₁,table₁⟩,named,rfl⟩ := Option.map_eq_some_iff.mp ran
    rw [threadSelf_table named]
    rfl
  | exit t =>
    cases Option.some.inj ran
    rfl

theorem exec_objects {calls : List (Call τ)} (ran : exec (step cached) s calls = some last) :
    (last.loops,last.table) = calls.foldl (objects cached) (s.loops,s.table) := by
  induction calls generalizing s with
  | nil =>
    cases Option.some.inj ran
    rfl
  | cons call rest ih =>
    obtain ⟨next,one,ran⟩ := exec_cons.mp ran
    rw [List.foldl_cons,← step_objects one]
    exact ih ran

-- A loop whose poll could not be made is handed out like any other, and freeing
-- it is the one misuse; otherwise all is given back but a descriptor 0 and, while
-- a thread lives, its record.
theorem loops_accounted {calls : List (Call τ)} (ran : exec (step cached) start calls = some last) :
    (last.loops,last.table) = calls.foldl (objects cached) ([],Threads.start.table) ∧
    (last.memory.misused = false ↔ Along (step cached) Polled start calls) ∧
    (last.memory.misused = false → last.files.misused = false ∧
      (∃ records, Lists last.table records ∧ last.memory.live.Perm (records++last.loops.flatMap LoopBlocks.all)) ∧
      last.files.live.Perm (last.loops.flatMap LoopBlocks.fds++calls.flatMap Call.lost)) := by
  have none_yet : Lists (Threads.start.table : Records τ) [] := ⟨List.nodup_nil,fun thrd => by simp [Threads.start]⟩
  have empty : Books cached (start : Loops τ) [] :=
    ⟨⟨Threads.start_sound cached,[],none_yet,⟨.nil,List.nodup_nil,rfl⟩⟩,⟨.nil,List.nodup_nil,rfl⟩⟩
  have books : Along (step cached) Polled start calls → Books cached last (calls.flatMap Call.lost++[]) :=
    fun polled => exec_books empty polled ran
  refine ⟨exec_objects ran,⟨misused_unless_polled ran,?_⟩,?_⟩
  · intro polled
    obtain ⟨_,_,memory⟩ := (books polled).memory.memory
    exact memory.clean
  · intro clean
    obtain ⟨⟨_,records,lists,memory⟩,files⟩ := books (misused_unless_polled ran clean)
    rw [List.append_nil] at files
    exact ⟨files.clean,⟨records,lists,memory.exact_held⟩,files.exact_held⟩

end Runs

-- Standard input was closed: the first poll gets descriptor 0 and no eventfd. The
-- second loop finds the record of its thread, and another thread's ends with it.
def starved : List (Call Nat) :=
  [.create 0 ⟨some 1,some 2,some 0,none,some 6⟩,.self 1 (some 7),.create 0 ⟨some 3,some 2,some 4,some 5,none⟩,.exit 1,.destroy 1]

theorem starved_accounted : ∃ last, exec (step true) start starved = some last ∧ Along (step true) Polled start starved ∧
    last.table.specific 0 = some 6 ∧ last.table.specific 1 = none ∧
    (∃ records, Lists last.table records ∧ last.memory.live.Perm (records++[1])) ∧ last.files.live.Perm [0] := by
  have seen : (exec (step true) start starved).map (fun last => (last.memory.misused,last.loops.flatMap LoopBlocks.all,
      last.loops.flatMap LoopBlocks.fds,last.table.specific 0,last.table.specific 1)) = some (false,[1],[],some 6,none) := by decide
  obtain ⟨last,ran,same⟩ := Option.map_eq_some_iff.mp seen
  simp only [Prod.mk.injEq] at same
  obtain ⟨clean,blocks,fds,mine,gone⟩ := same
  obtain ⟨_,polled_iff,accounts⟩ := loops_accounted ran
  obtain ⟨_,memory,files⟩ := accounts clean
  rw [blocks] at memory
  rw [fds] at files
  exact ⟨last,ran,polled_iff.mp clean,mine,gone,memory,files⟩

end EventLib.LoopOwnership
