import EventLib.EnabledFlag

namespace EventLib.DispatchSafety
open Events Epoll Sockets Streams LabelledRuns
open Eventloops hiding Action step start
open Listeners (switchMask)
open EnabledFlag (flag unregister_present)

def MAX_POLL_EVENT : Nat := 256

-- A socket is allocated while `sockets` has it. `permanent` are the events of
-- objects that stay, the wake-up event and the listeners; `ready` is the rest of
-- the array `epoll_wait` filled, and `current` the event called back last.
structure System (π τ : Type) where
  loop : Eventloop π τ
  sockets : π → Option (Socket π)
  permanent : π → Bool
  ready : List (π × UInt32)
  current : Option π

def start (loop : Eventloop π τ) (permanent : π → Bool) : System π τ := ⟨loop,fun _ => none,permanent,[],none⟩

inductive Action (π τ : Type) where
  | accept (ev : π) (fd : Int) (header : Bool) (istm ostm : Option Stream)
  | enable (thread : τ) (ev : π) (value : Bool) (faults : Faults)
  | teardown (thread : τ) (ev : π) (faults : Faults)
  | poll (batch : List (Int × UInt32))
  | dispatch
  | drain (fuel : Nat) (faults : Nat → Faults)

variable {π τ : Type}

section Model
variable [DecidableEq π] [DecidableEq τ]

-- The callback of a dispatch is made of the enables and teardowns that follow it.
-- A teardown is the disconnecting branch of `ecprocessor`: `socket_.enable` with
-- 0, whatever it answers, then `socket_.free`.
def step (s : System π τ) : Action π τ → Option (System π τ)
  | .accept ev fd header istm ostm =>
    if (s.sockets ev).isNone ∧ s.permanent ev = false then
      some {s with
        loop:=if header then setEvent s.loop ev fun _ => eventInit fd EVMASK_NONE else s.loop
        sockets:=Function.update s.sockets ev (socketNewFromFd ev header istm ostm)}
    else none
  | .enable thread ev value faults =>
    (s.sockets ev).bind fun sock => (socketEnable s.loop thread sock (flag value) faults).map fun (_,sock,loop) =>
      {s with loop:=loop,sockets:=Function.update s.sockets ev (some sock)}
  | .teardown thread ev faults =>
    (s.sockets ev).bind fun sock => (socketEnable s.loop thread sock 0 faults).map fun (_,_,loop) =>
      {s with loop:=loop,sockets:=Function.update s.sockets ev none}
  | .poll batch =>
    if s.ready.isEmpty ∧ batch.length ≤ MAX_POLL_EVENT ∧ (batch.map Prod.fst).Nodup ∧
        ∀ found ∈ batch, (s.loop.poll.interest found.1).isSome then
      some {s with
        ready:=batch.filterMap fun found => (s.loop.poll.interest found.1).map fun entry => (entry.2,found.2)
        current:=none}
    else none
  | .dispatch =>
    match s.ready with
    | [] => none
    | (ev,events)::rest =>
      some {s with loop:=setEvent s.loop ev fun e => eventpollDeliver e events,ready:=rest,current:=some ev}
  | .drain fuel faults =>
    if s.ready.isEmpty then (panding fuel faults s.loop).map fun (_,loop) => {s with loop:=loop,current:=none} else none

end Model

def Live (s : System π τ) (ev : π) : Prop := s.permanent ev = true ∨ (s.sockets ev).isSome

-- The loop itself reads and writes allocated events only.
def Spares [DecidableEq π] (s : System π τ) : Action π τ → Prop
  | .dispatch => ∀ entry ∈ s.ready.head?, Live s entry.1
  | .drain fuel faults => ∀ applied loop, panding fuel faults s.loop = some (applied,loop) → ∀ ev ∈ applied, Live s ev
  | _ => True

def Looping : Action π τ → Prop
  | .poll _ | .dispatch | .drain _ _ => True
  | _ => False

-- However the loop goes on from here, it spares what was freed.
def Unharmed [DecidableEq π] [DecidableEq τ] (s : System π τ) : Prop := ∀ more, (∀ action ∈ more, Looping action) → Along step Spares s more

def Registered (loop : Eventloop π τ) (ev : π) : Prop := ∃ fd want, loop.poll.interest fd = some (want,ev)

-- A teardown leaves the event in none of the three places: it is not waiting in
-- the list of another thread's requests or in the current batch, and the loop's
-- own thread has it unregistered.
def Careful (s : System π τ) : Action π τ → Prop
  | .teardown thread ev faults => ∀ sock, s.sockets ev = some sock →
      s.loop.pandings ≠ some ev ∧ (∀ entry ∈ s.ready, entry.1 ≠ ev) ∧ (sock.enabled ≠ 0 → s.loop.me = thread) ∧
      (Registered s.loop ev → sock.enabled ≠ 0 ∧ faults.1 = none)
  | _ => True

structure Sound (s : System π τ) : Prop where
  registered : ∀ ev, Registered s.loop ev → Live s ev
  pending : ∀ ev, s.loop.pandings = some ev → Live s ev
  fetched : ∀ entry ∈ s.ready, Live s entry.1

-- The request list is empty or one long.
structure Flat (loop : Eventloop π τ) : Prop where
  same : loop.pandings = loop.pandingsTail
  unlinked : ∀ ev, (loop.heap ev).next = none

-- A registration names the descriptor of its event, which has been applied.
def Entries (loop : Eventloop π τ) : Prop :=
  ∀ fd want ev, loop.poll.interest fd = some (want,ev) → (loop.heap ev).fd = fd ∧ (loop.heap ev).lastMask ≠ 0

structure Tidy (s : System π τ) : Prop where
  flat : Flat s.loop
  entries : Entries s.loop
  keyed : ∀ ev sock, s.sockets ev = some sock → sock.ev = ev ∧ s.permanent ev = false

theorem live_same {s next : System π τ} {ev : π} (sockets : next.sockets = s.sockets) (permanent : next.permanent = s.permanent) :
    Live next ev ↔ Live s ev := by
  rw [Live,Live,sockets,permanent]

theorem live_elsewhere [DecidableEq π] {s : System π τ} {ev other : π} {entry : Option (Socket π)} {loop : Eventloop π τ}
    (away : other ≠ ev) : Live {s with loop:=loop,sockets:=Function.update s.sockets ev entry} other ↔ Live s other := by
  simp only [Live,Function.update_of_ne away]

-- The block of a new socket comes from the allocator: nothing sound refers to it.
theorem unallocated_dead {s : System π τ} {ev : π} (free : (s.sockets ev).isNone = true) (movable : s.permanent ev = false) :
    ¬ Live s ev := by
  rintro (kept | held)
  · rw [movable] at kept
    cases kept
  · rw [Option.isNone_iff_eq_none.mp free] at held
    cases held

-- A property of each allocated socket after one slot has changed.
theorem sockets_update [DecidableEq π] {s : System π τ} {ev : π} {P : π → Socket π → Prop} {slot : Option (Socket π)}
    (here : ∀ sock, slot = some sock → P ev sock)
    (others : ∀ other sock, other ≠ ev → s.sockets other = some sock → P other sock) :
    ∀ other sock, Function.update s.sockets ev slot other = some sock → P other sock := by
  intro other sock held
  by_cases same : other = ev
  · subst same
    rw [Function.update_self] at held
    exact here sock held
  · rw [Function.update_of_ne same] at held
    exact others other sock same held

theorem Flat.single {loop : Eventloop π τ} (flat : Flat loop) : Single ⟨loop,loop.pandings.toList⟩ := by
  have head : loop.pandings = loop.pandings.toList.getLast? := by cases loop.pandings <;> rfl
  exact ⟨head,flat.same.symm.trans head,flat.unlinked⟩

section Loop
variable [DecidableEq π] {loop after : Eventloop π τ} {ev : π} {faults : Faults} {thread : τ}

-- The loop when `socket_enable` asks it to apply the event, and when the event is
-- left for it by another thread.
def masked (loop : Eventloop π τ) (ev : π) (value : Int) : Eventloop π τ :=
  setEvent loop ev fun e => {e with mask:=switchMask value}

def handedOver (loop : Eventloop π τ) (ev : π) (value : Int) : Eventloop π τ :=
  {masked loop ev value with pandings:=some ev,pandingsTail:=some ev,poll:=eventpollWakeup loop.poll}

theorem setEvent_entries {change : Event π → Event π} (entries : Entries loop) (fd : ∀ e, (change e).fd = e.fd)
    (applied : ∀ e, e.lastMask ≠ 0 → (change e).lastMask ≠ 0) : Entries (setEvent loop ev change) := by
  intro at_ want found there
  obtain ⟨named,before⟩ := entries at_ want found there
  by_cases same : found = ev
  · subst same
    rw [setEvent_here]
    exact ⟨(fd _).trans named,applied _ before⟩
  · rw [setEvent_other same]
    exact ⟨named,before⟩

theorem setEvent_flat {change : Event π → Event π} (flat : Flat loop) (next : ∀ e, e.next = none → (change e).next = none) :
    Flat (setEvent loop ev change) := by
  refine ⟨flat.same,?_⟩
  intro other
  by_cases same : other = ev
  · subst same
    rw [setEvent_here]
    exact next _ (flat.unlinked _)
  · rw [setEvent_other same]
    exact flat.unlinked other

theorem deliver_flat {events : UInt32} (flat : Flat loop) : Flat (setEvent loop ev fun e => eventpollDeliver e events) :=
  setEvent_flat flat fun _ before => before

theorem deliver_entries {events : UInt32} (entries : Entries loop) :
    Entries (setEvent loop ev fun e => eventpollDeliver e events) := by
  have applied : DEFAULT_POLL_MASK ≠ 0 := by decide
  exact setEvent_entries entries (fun _ => rfl) fun _ _ => applied

theorem pollApply_entries (entries : Entries loop) : Entries (pollApply loop ev faults).2 := by
  intro fd want found there
  have kept := eventpollApply_fd loop.poll ev (loop.heap ev) faults
  rcases eventpollApply_found there with ⟨rfl,rfl,_,applied⟩ | old
  · simp only [pollApply,Function.update_self]
    exact ⟨kept,applied⟩
  · obtain ⟨named,before⟩ := entries fd want found old
    by_cases same : found = ev
    · subst same
      simp only [pollApply,Function.update_self]
      exact ⟨kept.trans named,eventpollApply_applied before⟩
    · simp only [pollApply,Function.update_of_ne same]
      exact ⟨named,before⟩

theorem pollApply_flat (flat : Flat loop) : Flat (pollApply loop ev faults).2 := ⟨flat.same,pollApply_unlinked flat.unlinked⟩

theorem pollApply_registered {other : π} (there : Registered (pollApply loop ev faults).2 other) :
    other = ev ∨ Registered loop other := by
  obtain ⟨fd,want,there⟩ := there
  rcases eventpollApply_found there with ⟨rfl,_⟩ | old
  · exact Or.inl rfl
  · exact Or.inr ⟨fd,want,old⟩

-- `socket_enable` with 0 on the loop's thread.
theorem disabled_registered (entries : Entries loop) :
    Registered (pollApply (masked loop ev 0) ev faults).2 ev ↔
      Registered loop ev ∧ faults.1 ≠ none := by
  have zero : newMask (switchMask 0) = 0 := by decide
  have event : (masked loop ev 0).heap ev = {loop.heap ev with mask:=switchMask 0} := setEvent_here
  have named : ((masked loop ev 0).heap ev).fd = (loop.heap ev).fd := by rw [event]
  have outcome : ∀ {want}, loop.poll.interest (loop.heap ev).fd = some (want,ev) → (loop.heap ev).lastMask ≠ 0 →
      faults.1 = none ∧ (pollApply (masked loop ev 0) ev faults).2.poll.interest (loop.heap ev).fd = none ∨
      faults.1 ≠ none ∧ (pollApply (masked loop ev 0) ev faults).2.poll.interest = loop.poll.interest := by
    intro want present applied
    have spec := unregister_present loop.poll ev ((masked loop ev 0).heap ev) faults (by rw [named]; exact present)
      (by rw [event]; exact zero) (by rw [event]; exact applied)
    rcases spec with ⟨granted,done⟩ | ⟨refused,_,same⟩
    · refine Or.inl ⟨granted,?_⟩
      show (eventpollApply loop.poll ev ((masked loop ev 0).heap ev) faults).2.2.interest _ = none
      rw [done,← named]
      exact put_here
    · exact Or.inr ⟨refused,same⟩
  constructor
  · rintro ⟨fd,want,there⟩
    have old : loop.poll.interest fd = some (want,ev) := by
      rcases eventpollApply_found there with ⟨_,_,wanted,_⟩ | old
      · rw [event] at wanted
        exact absurd zero wanted
      · exact old
    obtain ⟨rfl,applied⟩ := entries fd want ev old
    refine ⟨⟨_,want,old⟩,?_⟩
    rcases outcome old applied with ⟨_,gone⟩ | ⟨refused,_⟩
    · rw [gone] at there
      cases there
    · exact refused
  · rintro ⟨⟨fd,want,old⟩,refused⟩
    obtain ⟨rfl,applied⟩ := entries fd want ev old
    rcases outcome old applied with ⟨granted,_⟩ | ⟨_,same⟩
    · exact absurd granted refused
    · refine ⟨(loop.heap ev).fd,want,?_⟩
      rw [same]
      exact old

theorem drain_effect {fuel : Nat} {faults : Nat → Faults} {applied : List π} (flat : Flat loop)
    (ran : panding fuel faults loop = some (applied,after)) :
    applied = loop.pandings.toList ∧ Flat after ∧ after.pandings = none ∧ (Entries loop → Entries after) ∧
      ∀ other, Registered after other → loop.pandings = some other ∨ Registered loop other := by
  obtain ⟨⟨visited,ended⟩,looped,same⟩ := Option.map_eq_some_iff.mp ran
  cases same
  cases newest : loop.pandings with
  | none =>
    rw [newest] at looped
    cases fuel with
    | zero => cases looped
    | succ fuel =>
      cases Option.some.inj looped
      exact ⟨rfl,⟨rfl,flat.unlinked⟩,rfl,fun entries => entries,fun other there => Or.inr there⟩
  | some ev =>
    rw [newest] at looped
    cases fuel with
    | zero => cases looped
    | succ fuel =>
      rw [pandingLoop_one flat.unlinked] at looped
      cases fuel with
      | zero => cases looped
      | succ fuel =>
        cases Option.some.inj looped
        refine ⟨rfl,⟨rfl,pollApply_unlinked flat.unlinked⟩,rfl,?_,?_⟩
        · intro entries
          exact pollApply_entries (show Entries {loop with pandings:=none} from entries)
        · intro other there
          have there : Registered (pollApply {loop with pandings:=none} ev (faults 0)).2 other := there
          rcases pollApply_registered there with rfl | old
          · exact Or.inl rfl
          · exact Or.inr old

-- No other event than `ev` gets into the interest set or the request list.
structure Touched (loop : Eventloop π τ) (ev : π) (after : Eventloop π τ) : Prop where
  flat : Flat after
  entries : Entries after
  registered : ∀ other, other ≠ ev → Registered after other → Registered loop other
  pending : ∀ other, other ≠ ev → after.pandings = some other → loop.pandings = some other

inductive Enabled (loop : Eventloop π τ) (thread : τ) (sock : Socket π) (value : Int) (faults : Faults) :
    Option (Int × Socket π × Eventloop π τ) → Prop where
  | kept : sock.enabled = value → Enabled loop thread sock value faults (some (0,sock,loop))
  | applied : sock.enabled ≠ value → loop.me = thread → Enabled loop thread sock value faults
      (some (ret,{sock with enabled:=value},(pollApply (masked loop sock.ev value) sock.ev faults).2))
  | handed : sock.enabled ≠ value → loop.me ≠ thread → Enabled loop thread sock value faults
      (some (ret,{sock with enabled:=value},handedOver loop sock.ev value))

theorem enable_spec [DecidableEq τ] (flat : Flat loop) (thread : τ) (sock : Socket π) (value : Int) (faults : Faults) :
    Enabled loop thread sock value faults (socketEnable loop thread sock value faults) := by
  unfold socketEnable
  split
  · rename_i same
    exact .kept same
  · rename_i differs
    show Enabled _ _ _ _ _ (Option.map _ (eventloopApply (masked loop sock.ev value) thread sock.ev faults))
    unfold eventloopApply
    split
    · rename_i own
      exact .applied differs own
    · rename_i foreign
      have alone : (masked loop sock.ev value).pandings = (masked loop sock.ev value).pandingsTail := flat.same
      rw [applyPanding,if_pos alone]
      exact .handed differs foreign

theorem masked_entries {value : Int} (entries : Entries loop) : Entries (masked loop ev value) :=
  setEvent_entries entries (fun _ => rfl) (fun _ before => before)

theorem masked_flat {value : Int} (flat : Flat loop) : Flat (masked loop ev value) := setEvent_flat flat fun _ before => before

theorem Enabled.touched {sock sock' : Socket π} {value ret : Int} (flat : Flat loop) (entries : Entries loop)
    (enabled : Enabled loop thread sock value faults (some (ret,sock',after))) : Touched loop sock.ev after ∧ sock'.ev = sock.ev := by
  cases enabled with
  | kept same => exact ⟨⟨flat,entries,fun _ _ there => there,fun _ _ waits => waits⟩,rfl⟩
  | applied differs own =>
    refine ⟨⟨pollApply_flat (masked_flat flat),pollApply_entries (masked_entries entries),?_,fun _ _ waits => waits⟩,rfl⟩
    intro other away there
    exact (pollApply_registered there).resolve_left away
  | handed differs foreign =>
    have interest : (handedOver loop sock.ev value).poll.interest = loop.poll.interest := wakeup_interest loop.poll
    refine ⟨⟨⟨rfl,(masked_flat flat).unlinked⟩,?_,?_,?_⟩,rfl⟩
    · intro fd want found there
      rw [interest] at there
      exact masked_entries entries fd want found there
    · rintro other away ⟨fd,want,there⟩
      rw [interest] at there
      exact ⟨fd,want,there⟩
    · intro other away waits
      exact absurd (Option.some.inj waits).symm away

-- What the disabling before a free leaves of the event.
theorem Enabled.cleared_iff {sock sock' : Socket π} {ret : Int} (entries : Entries loop)
    (enabled : Enabled loop thread sock 0 faults (some (ret,sock',after))) :
    ¬ Registered after sock.ev ∧ after.pandings ≠ some sock.ev ↔
      loop.pandings ≠ some sock.ev ∧ (sock.enabled ≠ 0 → loop.me = thread) ∧
      (Registered loop sock.ev → sock.enabled ≠ 0 ∧ faults.1 = none) := by
  cases enabled with
  | kept same =>
    constructor
    · rintro ⟨out,unlisted⟩
      exact ⟨unlisted,fun other => absurd same other,fun there => absurd there out⟩
    · rintro ⟨unlisted,_,known⟩
      exact ⟨fun there => (known there).1 same,unlisted⟩
  | applied differs own =>
    rw [disabled_registered entries]
    constructor
    · rintro ⟨out,unlisted⟩
      refine ⟨unlisted,fun _ => own,?_⟩
      intro there
      refine ⟨differs,?_⟩
      by_contra refused
      exact out ⟨there,refused⟩
    · rintro ⟨unlisted,_,known⟩
      exact ⟨fun still => still.2 (known still.1).2,unlisted⟩
  | handed differs foreign =>
    refine iff_of_false ?_ ?_
    · rintro ⟨_,unlisted⟩
      exact unlisted rfl
    · rintro ⟨_,own,_⟩
      exact foreign (own differs)

theorem Enabled.idle {sock sock' : Socket π} {value ret : Int}
    (enabled : Enabled loop thread sock value faults (some (ret,sock',after))) (own : loop.me = thread) (idle : loop.pandings = none) :
    after.pandings = none := by
  cases enabled with
  | kept same => exact idle
  | applied differs _ => exact idle
  | handed _ foreign => exact absurd own foreign

-- On the loop's own thread a socket stays registered only with its flag up.
theorem Enabled.flagged {sock sock' : Socket π} {value : Bool} {ret : Int}
    (enabled : Enabled loop thread sock (flag value) faults (some (ret,sock',after))) (entries : Entries loop) (own : loop.me = thread)
    (granted : value = false → faults.1 = none) (before : Registered loop sock.ev → sock.enabled ≠ 0) :
    Registered after sock.ev → sock'.enabled ≠ 0 := by
  cases enabled with
  | kept same => exact before
  | applied differs _ =>
    cases value with
    | true => exact fun _ => (by decide : (1 : Int) ≠ 0)
    | false =>
      intro there
      exact absurd (granted rfl) ((disabled_registered entries).mp there).2
  | handed _ foreign => exact absurd own foreign

end Loop

theorem sound_spares [DecidableEq π] {s : System π τ} (tidy : Tidy s) (sound : Sound s) (action : Action π τ) : Spares s action := by
  cases action with
  | dispatch =>
    intro entry first
    exact sound.fetched entry (List.mem_of_mem_head? first)
  | drain fuel faults =>
    intro applied after drained ev touched
    rw [(drain_effect tidy.flat drained).1] at touched
    exact sound.pending ev (Option.mem_toList.mp touched)
  | _ => trivial

-- What a run keeps as long as no teardown was careless.
structure Steady (s : System π τ) : Prop where
  tidy : Tidy s
  sound : Sound s

section Steps
variable [DecidableEq π] [DecidableEq τ] {s next : System π τ} {ev other : π} {action : Action π τ}

theorem looping_tidy (tidy : Tidy s) (looping : Looping action) (ran : step s action = some next) : Tidy next := by
  cases action with
  | accept ev fd header istm ostm => exact looping.elim
  | enable thread ev value faults => exact looping.elim
  | teardown thread ev faults => exact looping.elim
  | poll batch =>
    obtain ⟨_,same⟩ := Option.ite_none_right_eq_some.mp ran
    cases Option.some.inj same
    exact ⟨tidy.flat,tidy.entries,tidy.keyed⟩
  | dispatch =>
    simp only [step] at ran
    split at ran
    · cases ran
    · cases Option.some.inj ran
      exact ⟨deliver_flat tidy.flat,deliver_entries tidy.entries,tidy.keyed⟩
  | drain fuel faults =>
    obtain ⟨_,ran⟩ := Option.ite_none_right_eq_some.mp ran
    obtain ⟨⟨applied,after⟩,drained,rfl⟩ := Option.map_eq_some_iff.mp ran
    obtain ⟨_,flat,_,entries,_⟩ := drain_effect tidy.flat drained
    exact ⟨flat,entries tidy.entries,tidy.keyed⟩

theorem looping_sound (tidy : Tidy s) (sound : Sound s) (looping : Looping action) (ran : step s action = some next) :
    Sound next := by
  cases action with
  | accept ev fd header istm ostm => exact looping.elim
  | enable thread ev value faults => exact looping.elim
  | teardown thread ev faults => exact looping.elim
  | poll batch =>
    obtain ⟨_,same⟩ := Option.ite_none_right_eq_some.mp ran
    cases Option.some.inj same
    refine ⟨sound.registered,sound.pending,?_⟩
    intro entry fetched
    obtain ⟨⟨fd,events⟩,_,found⟩ := List.mem_filterMap.mp fetched
    obtain ⟨⟨want,ev⟩,there,rfl⟩ := Option.map_eq_some_iff.mp found
    exact sound.registered ev ⟨fd,want,there⟩
  | dispatch =>
    simp only [step] at ran
    split at ran
    · cases ran
    · rename_i ready
      cases Option.some.inj ran
      refine ⟨sound.registered,sound.pending,?_⟩
      intro entry later
      exact sound.fetched entry (by rw [ready]; exact List.mem_cons_of_mem _ later)
  | drain fuel faults =>
    obtain ⟨_,ran⟩ := Option.ite_none_right_eq_some.mp ran
    obtain ⟨⟨applied,after⟩,drained,rfl⟩ := Option.map_eq_some_iff.mp ran
    obtain ⟨_,_,emptied,_,from_⟩ := drain_effect tidy.flat drained
    refine ⟨?_,?_,sound.fetched⟩
    · intro ev there
      rcases from_ ev there with waiting | old
      · exact sound.pending ev waiting
      · exact sound.registered ev old
    · intro ev waits
      rw [show _ = none from emptied] at waits
      cases waits

theorem dispatch_through {front rest : List (π × UInt32)} (ready : s.ready = front++rest) :
    ∃ last, exec step s (List.replicate front.length .dispatch) = some last ∧ last.ready = rest ∧ last.sockets = s.sockets ∧
      last.permanent = s.permanent ∧ last.loop.poll = s.loop.poll ∧ last.loop.pandings = s.loop.pandings := by
  induction front generalizing s with
  | nil => exact ⟨s,rfl,ready,rfl,rfl,rfl,rfl⟩
  | cons entry front ih =>
    obtain ⟨ev,events⟩ := entry
    let one : System π τ := {s with
      loop:=setEvent s.loop ev fun e => eventpollDeliver e events,ready:=front++rest,current:=some ev}
    have ran : step s .dispatch = some one := by
      simp only [step,ready,List.cons_append]
      rfl
    obtain ⟨last,more,rest_ready,sockets,permanent,poll,pandings⟩ := ih (s:=one) rfl
    exact ⟨last,exec_cons.mpr ⟨one,ran,more⟩,rest_ready,sockets,permanent,poll,pandings⟩

-- Wherever the loop is in its batch, it stays unharmed in what it does next.
theorem unharmed_through (tidy : Tidy s) (unharmed : Unharmed s) {front rest : List (π × UInt32)} {more : List (Action π τ)}
    (ready : s.ready = front++rest) (looping : ∀ action ∈ more, Looping action) :
    ∃ last : System π τ, Along step Spares last more ∧ Tidy last ∧ last.ready = rest ∧
      (∀ ev, Live last ev → Live s ev) ∧ last.loop.poll = s.loop.poll ∧ last.loop.pandings = s.loop.pandings := by
  obtain ⟨last,ran,rest_ready,sockets,permanent,poll,pandings⟩ := dispatch_through ready
  have all : ∀ action ∈ List.replicate front.length (Action.dispatch : Action π τ), Looping action := by
    intro action member
    rw [List.eq_of_mem_replicate member]
    trivial
  have along := unharmed (List.replicate front.length .dispatch++more) fun action member =>
    (List.mem_append.mp member).elim (all action) (looping action)
  refine ⟨last,along_suffix along ran,?_,rest_ready,fun ev live => (live_same sockets permanent).mp live,poll,pandings⟩
  have guarded : Along step (fun _ action => Looping action) s (List.replicate front.length .dispatch) := along_of_forall all
  exact exec_guarded (fun s action next tidy looping ran => looping_tidy tidy looping ran) tidy guarded ran

-- Dangling pointers are harm: the loop gets to each of them.
theorem unharmed_iff (tidy : Tidy s) : Unharmed s ↔ Sound s := by
  constructor
  · intro unharmed
    have whole : s.ready = s.ready++[] := (List.append_nil _).symm
    refine ⟨?_,?_,?_⟩
    · rintro ev ⟨fd,want,there⟩
      have turn : ∀ action ∈ ([.poll [(fd,EPOLLIN)],.dispatch] : List (Action π τ)), Looping action := by simp [Looping]
      obtain ⟨last,along,_,empty,live,poll,_⟩ := unharmed_through tidy unharmed whole turn
      have there : last.loop.poll.interest fd = some (want,ev) := by rw [poll]; exact there
      have polled : step last (.poll [(fd,EPOLLIN)]) = some {last with ready:=[(ev,EPOLLIN)],current:=none} := by
        simp [step,empty,there,MAX_POLL_EVENT]
      exact live ev ((along.2 _ polled).1 (ev,EPOLLIN) rfl)
    · intro ev waits
      have turn : ∀ action ∈ ([.drain 2 fun _ => (none,none)] : List (Action π τ)), Looping action := by simp [Looping]
      obtain ⟨last,along,tidy,_,live,_,pandings⟩ := unharmed_through tidy unharmed whole turn
      obtain ⟨after,returns⟩ := panding_returns tidy.flat.single fun _ => (none,none)
      refine live ev (along.1 _ after (returns 2 (Nat.le_refl 2)) ev ?_)
      simp [pandings,waits]
    · intro entry fetched
      obtain ⟨front,back,split⟩ := List.append_of_mem fetched
      have turn : ∀ action ∈ ([.dispatch] : List (Action π τ)), Looping action := by simp [Looping]
      obtain ⟨last,along,_,ready,live,_,_⟩ := unharmed_through tidy unharmed split turn
      exact live entry.1 (along.1 entry (by rw [ready]; rfl))
  · intro sound more looping
    have guarded : Along step (fun _ action => Looping action) s more := along_of_forall looping
    have begin : Steady s := ⟨tidy,sound⟩
    refine along_guarded ?_ ?_ begin guarded
    · intro s action next steady looping ran
      exact ⟨looping_tidy steady.tidy looping ran,looping_sound steady.tidy steady.sound looping ran⟩
    · intro s action steady _
      exact sound_spares steady.tidy steady.sound action

theorem enable_step {thread : τ} {value : Bool} {faults : Faults} (tidy : Tidy s)
    (ran : step s (.enable thread ev value faults) = some next) :
    ∃ sock ret sock' after, s.sockets ev = some sock ∧ Enabled s.loop thread sock (flag value) faults (some (ret,sock',after)) ∧
      next = {s with loop:=after,sockets:=Function.update s.sockets ev (some sock')} := by
  obtain ⟨sock,held,ran⟩ := Option.bind_eq_some_iff.mp ran
  obtain ⟨⟨ret,sock',after⟩,enabled,rfl⟩ := Option.map_eq_some_iff.mp ran
  have spec := enable_spec tidy.flat thread sock (flag value) faults
  rw [enabled] at spec
  exact ⟨sock,ret,sock',after,held,spec,rfl⟩

theorem teardown_step {thread : τ} {faults : Faults} (tidy : Tidy s) (ran : step s (.teardown thread ev faults) = some next) :
    ∃ sock ret sock' after, s.sockets ev = some sock ∧ Enabled s.loop thread sock 0 faults (some (ret,sock',after)) ∧
      next = {s with loop:=after,sockets:=Function.update s.sockets ev none} := by
  obtain ⟨sock,held,ran⟩ := Option.bind_eq_some_iff.mp ran
  obtain ⟨⟨ret,sock',after⟩,enabled,rfl⟩ := Option.map_eq_some_iff.mp ran
  have spec := enable_spec tidy.flat thread sock 0 faults
  rw [enabled] at spec
  exact ⟨sock,ret,sock',after,held,spec,rfl⟩

theorem accept_steady {fd : Int} {header : Bool} {istm ostm : Option Stream} (steady : Steady s)
    (ran : step s (.accept ev fd header istm ostm) = some next) : Steady next := by
  obtain ⟨tidy,sound⟩ := steady
  obtain ⟨⟨free,movable⟩,same⟩ := Option.ite_none_right_eq_some.mp ran
  cases Option.some.inj same
  have away : ∀ other, Live s other → other ≠ ev := fun other live same => unallocated_dead free movable (same ▸ live)
  refine ⟨⟨?_,?_,?_⟩,⟨?_,?_,?_⟩⟩
  · dsimp only
    split
    · exact setEvent_flat tidy.flat fun _ _ => rfl
    · exact tidy.flat
  · dsimp only
    split
    · intro at_ want found there
      rw [setEvent_other (away found (sound.registered found ⟨at_,want,there⟩))]
      exact tidy.entries at_ want found there
    · exact tidy.entries
  · exact sockets_update (fun sock made => ⟨(socketNewFromFd_off made).1,movable⟩) fun other sock _ held => tidy.keyed other sock held
  · intro other there
    have old : Registered s.loop other := by
      dsimp only at there
      split at there <;> exact there
    have live := sound.registered other old
    exact (live_elsewhere (away other live)).mpr live
  · intro other waits
    have old : s.loop.pandings = some other := by
      dsimp only at waits
      split at waits <;> exact waits
    have live := sound.pending other old
    exact (live_elsewhere (away other live)).mpr live
  · intro entry fetched
    have live := sound.fetched entry fetched
    exact (live_elsewhere (away entry.1 live)).mpr live

theorem enable_steady {thread : τ} {value : Bool} {faults : Faults} (steady : Steady s)
    (ran : step s (.enable thread ev value faults) = some next) : Steady next := by
  obtain ⟨tidy,sound⟩ := steady
  obtain ⟨sock,ret,sock',after,held,enabled,rfl⟩ := enable_step tidy ran
  obtain ⟨touched,moved⟩ := enabled.touched tidy.flat tidy.entries
  obtain ⟨keyed,movable⟩ := tidy.keyed ev sock held
  rw [keyed] at touched
  have live : ∀ other, Live s other → Live {s with loop:=after,sockets:=Function.update s.sockets ev (some sock')} other := by
    intro other before
    by_cases same : other = ev
    · subst same
      exact Or.inr (by simp)
    · exact (live_elsewhere same).mpr before
  have here : Live s ev := Or.inr (by rw [held]; rfl)
  refine ⟨⟨touched.flat,touched.entries,?_⟩,⟨?_,?_,?_⟩⟩
  · refine sockets_update ?_ fun other found _ taken => tidy.keyed other found taken
    intro found same
    cases Option.some.inj same
    exact ⟨moved.trans keyed,movable⟩
  · intro other there
    by_cases same : other = ev
    · exact live other (same ▸ here)
    · exact live other (sound.registered other (touched.registered other same there))
  · intro other waits
    by_cases same : other = ev
    · exact live other (same ▸ here)
    · exact live other (sound.pending other (touched.pending other same waits))
  · intro entry fetched
    exact live entry.1 (sound.fetched entry fetched)

theorem teardown_tidy {thread : τ} {faults : Faults} (tidy : Tidy s) (ran : step s (.teardown thread ev faults) = some next) :
    Tidy next := by
  obtain ⟨sock,ret,sock',after,held,enabled,rfl⟩ := teardown_step tidy ran
  obtain ⟨touched,_⟩ := enabled.touched tidy.flat tidy.entries
  refine ⟨touched.flat,touched.entries,?_⟩
  exact sockets_update (fun _ left => by cases left) fun other found _ taken => tidy.keyed other found taken

theorem teardown_sound_iff {thread : τ} {faults : Faults} (steady : Steady s)
    (ran : step s (.teardown thread ev faults) = some next) : Sound next ↔ Careful s (.teardown thread ev faults) := by
  obtain ⟨tidy,sound⟩ := steady
  obtain ⟨sock,ret,sock',after,held,enabled,rfl⟩ := teardown_step tidy ran
  obtain ⟨touched,_⟩ := enabled.touched tidy.flat tidy.entries
  have cleared := enabled.cleared_iff tidy.entries
  obtain ⟨keyed,movable⟩ := tidy.keyed ev sock held
  rw [keyed] at touched cleared
  have gone : ¬ Live {s with loop:=after,sockets:=Function.update s.sockets ev none} ev := by
    rintro (kept | left)
    · dsimp only at kept
      rw [movable] at kept
      cases kept
    · dsimp only at left
      rw [Function.update_self] at left
      cases left
  constructor
  · intro sound' found taken
    cases Option.some.inj (held.symm.trans taken)
    obtain ⟨unlisted,own,known⟩ := cleared.mp
      ⟨fun there => gone (sound'.registered ev there),fun waits => gone (sound'.pending ev waits)⟩
    exact ⟨unlisted,fun entry fetched same => gone (same ▸ sound'.fetched entry fetched),own,known⟩
  · intro careful
    obtain ⟨unlisted,unfetched,own,known⟩ := careful sock held
    obtain ⟨out,apart⟩ := cleared.mpr ⟨unlisted,own,known⟩
    refine ⟨?_,?_,?_⟩
    · intro other there
      have away : other ≠ ev := fun same => out (same ▸ there)
      exact (live_elsewhere away).mpr (sound.registered other (touched.registered other away there))
    · intro other waits
      have away : other ≠ ev := fun same => apart (same ▸ waits)
      exact (live_elsewhere away).mpr (sound.pending other (touched.pending other away waits))
    · intro entry fetched
      exact (live_elsewhere (unfetched entry fetched)).mpr (sound.fetched entry fetched)

theorem step_tidy (steady : Steady s) (ran : step s action = some next) : Tidy next := by
  cases action with
  | accept ev fd header istm ostm => exact (accept_steady steady ran).tidy
  | enable thread ev value faults => exact (enable_steady steady ran).tidy
  | teardown thread ev faults => exact teardown_tidy steady.tidy ran
  | poll batch => exact looping_tidy steady.tidy (by trivial) ran
  | dispatch => exact looping_tidy steady.tidy (by trivial) ran
  | drain fuel faults => exact looping_tidy steady.tidy (by trivial) ran

theorem step_sound_iff (steady : Steady s) (ran : step s action = some next) : Sound next ↔ Careful s action := by
  cases action with
  | accept ev fd header istm ostm => exact iff_of_true (accept_steady steady ran).sound trivial
  | enable thread ev value faults => exact iff_of_true (enable_steady steady ran).sound trivial
  | teardown thread ev faults => exact teardown_sound_iff steady ran
  | poll batch => exact iff_of_true (looping_sound steady.tidy steady.sound (by trivial) ran) trivial
  | dispatch => exact iff_of_true (looping_sound steady.tidy steady.sound (by trivial) ran) trivial
  | drain fuel faults => exact iff_of_true (looping_sound steady.tidy steady.sound (by trivial) ran) trivial

theorem unharmed_exact (steady : Steady s) (action : Action π τ) : After step Unharmed s action ↔ Careful s action := by
  constructor
  · intro unharmed
    cases action with
    | teardown thread ev faults =>
      intro sock held
      -- a teardown of an allocated socket always returns
      have spec := enable_spec steady.tidy.flat thread sock 0 faults
      obtain ⟨next,ran⟩ : ∃ next, step s (.teardown thread ev faults) = some next := by
        simp only [step,held,Option.bind_some]
        generalize socketEnable s.loop thread sock 0 faults = result at spec
        cases spec <;> exact ⟨_,rfl⟩
      have sound := (unharmed_iff (step_tidy steady ran)).mp (unharmed next ran)
      exact (step_sound_iff steady ran).mp sound sock held
    | _ => trivial
  · intro careful next ran
    exact (unharmed_iff (step_tidy steady ran)).mpr ((step_sound_iff steady ran).mpr careful)

theorem careful_steady (steady : Steady s) (careful : Careful s action) (ran : step s action = some next) : Steady next :=
  ⟨step_tidy steady ran,(step_sound_iff steady ran).mpr careful⟩

end Steps

-- A loop that has been set up: only events of objects that stay are registered.
structure Booted (loop : Eventloop π τ) (permanent : π → Bool) : Prop where
  idle : loop.pandings = none ∧ loop.pandingsTail = none
  unlinked : ∀ ev, (loop.heap ev).next = none
  entries : ∀ fd want ev, loop.poll.interest fd = some (want,ev) →
    permanent ev = true ∧ (loop.heap ev).fd = fd ∧ (loop.heap ev).lastMask ≠ 0

theorem start_steady {loop : Eventloop π τ} {permanent : π → Bool} (booted : Booted loop permanent) :
    Steady (start loop permanent) := by
  refine ⟨⟨⟨booted.idle.1.trans booted.idle.2.symm,booted.unlinked⟩,?_,?_⟩,⟨?_,?_,?_⟩⟩
  · intro fd want ev there
    exact (booted.entries fd want ev there).2
  · intro ev sock held
    cases held
  · rintro ev ⟨fd,want,there⟩
    exact Or.inl (booted.entries fd want ev there).1
  · intro ev waits
    cases booted.idle.1.symm.trans waits
  · intro entry fetched
    cases fetched

section Runs
variable [DecidableEq π] [DecidableEq τ] {loop : Eventloop π τ} {permanent : π → Bool}

-- Whether the loop can ever come upon a freed socket is decided by the teardowns
-- alone, one by one.
theorem dispatch_safe_iff (booted : Booted loop permanent) (actions : List (Action π τ)) :
    (Along step (After step Unharmed) (start loop permanent) actions ↔ Along step Careful (start loop permanent) actions) ∧
    (Along step Careful (start loop permanent) actions → Along step Spares (start loop permanent) actions) := by
  have begin := start_steady booted
  constructor
  · refine along_iff ?_ ?_ begin along_true
    · intro s action steady _
      exact unharmed_exact steady action
    · intro s action next steady _ unharmed ran
      exact careful_steady steady ((unharmed_exact steady action).mp unharmed) ran
  · intro careful
    refine along_guarded ?_ ?_ begin careful
    · intro s action next steady careful ran
      exact careful_steady steady careful ran
    · intro s action steady _
      exact sound_spares steady.tidy steady.sound action

end Runs

-- The wake-up event 0 on descriptor 1 is registered, as `eventpoll_new` leaves it.
def wakeLoop : Eventloop Nat Nat :=
  eventloopInit ⟨fun fd => if fd = 1 then some (newMask EVMASK_READ,0) else none,0,0⟩
    (fun ev => if ev = 0 then ⟨1,EVMASK_READ,newMask EVMASK_READ,none⟩ else eventInit ev EVMASK_NONE) 0

def wakes (ev : Nat) : Bool := ev == 0

theorem wake_booted : Booted wakeLoop wakes := by
  refine ⟨⟨rfl,rfl⟩,?_,?_⟩
  · intro ev
    simp only [wakeLoop,eventloopInit]
    split <;> rfl
  · intro fd want ev there
    simp only [wakeLoop,eventloopInit] at there
    split at there
    · rename_i here
      cases there
      exact ⟨rfl,here.symm,by decide⟩
    · cases there

-- Thread 1 takes down a socket of thread 0's loop: the request to disable it is
-- still in the list when the socket is gone.
def foreignTeardown : List (Action Nat Nat) :=
  [.accept 3 7 true (some bareStream) (some bareStream),.enable 0 3 true (none,none),.teardown 1 3 (none,none)]

theorem foreign_teardown_harms : ¬ Along step (After step Unharmed) (start wakeLoop wakes) foreignTeardown := by
  intro unharmed
  have careful := (dispatch_safe_iff wake_booted foreignTeardown).1.mp unharmed
  obtain ⟨_,careful⟩ := (along_cons rfl).mp careful
  obtain ⟨_,careful⟩ := (along_cons rfl).mp careful
  obtain ⟨_,_,own,_⟩ := careful.1 _ rfl
  exact absurd (own (by decide)) (by decide)

section Callbacks
variable {loop : Eventloop π τ} {permanent : π → Bool}

-- How `ecprocessor` uses the library: every call is made on the loop's thread,
-- and a socket is torn down in its own callback. No unregistering is refused.
def InCallback (s : System π τ) : Action π τ → Prop
  | .enable thread _ value faults => s.loop.me = thread ∧ (value = false → faults.1 = none)
  | .teardown thread ev faults => s.loop.me = thread ∧ s.current = some ev ∧ faults.1 = none
  | _ => True

structure Orderly (s : System π τ) : Prop where
  steady : Steady s
  idle : s.loop.pandings = none
  once : (s.current.toList++s.ready.map Prod.fst).Nodup
  flagged : ∀ ev sock, s.sockets ev = some sock → Registered s.loop ev → sock.enabled ≠ 0

theorem orderly_careful {s : System π τ} {action : Action π τ} (orderly : Orderly s) (inside : InCallback s action) :
    Careful s action := by
  cases action with
  | teardown thread ev faults =>
    obtain ⟨own,current,granted⟩ := inside
    intro sock held
    refine ⟨?_,?_,fun _ => own,fun there => ⟨orderly.flagged ev sock held there,granted⟩⟩
    · rw [orderly.idle]
      exact (Option.some_ne_none ev).symm
    · intro entry fetched same
      have once := orderly.once
      rw [current] at once
      exact (List.nodup_cons.mp once).1 (same ▸ List.mem_map_of_mem fetched)
  | _ => trivial

-- One `epoll_wait` reports a descriptor once, and an event has one descriptor.
theorem fetched_once {batch : List (Int × UInt32)} (entries : Entries loop) (nodup : (batch.map Prod.fst).Nodup) :
    ((batch.filterMap fun found => (loop.poll.interest found.1).map fun entry => (entry.2,found.2)).map Prod.fst).Nodup := by
  induction batch with
  | nil => exact List.nodup_nil
  | cons found rest ih =>
    obtain ⟨fresh,nodup⟩ := List.nodup_cons.mp nodup
    cases there : loop.poll.interest found.1 with
    | none =>
      rw [List.filterMap_cons_none (by rw [there]; rfl)]
      exact ih nodup
    | some entry =>
      rw [List.filterMap_cons_some (by rw [there]; rfl),List.map_cons]
      refine List.nodup_cons.mpr ⟨?_,ih nodup⟩
      intro again
      obtain ⟨other,member,same⟩ := List.mem_map.mp again
      obtain ⟨also,listed,mapped⟩ := List.mem_filterMap.mp member
      obtain ⟨⟨want,ev⟩,second,rfl⟩ := Option.map_eq_some_iff.mp mapped
      obtain ⟨want',ev'⟩ := entry
      cases same
      have one := (entries found.1 want' _ there).1
      have two := (entries also.1 want _ second).1
      exact fresh (List.mem_map.mpr ⟨also,listed,two.symm.trans one⟩)

theorem start_orderly (booted : Booted loop permanent) : Orderly (start loop permanent) :=
  ⟨start_steady booted,booted.idle.1,List.nodup_nil,fun _ _ held => by cases held⟩

variable [DecidableEq π] [DecidableEq τ]

section Orders
variable {s next : System π τ} {ev : π}

theorem accept_orderly {fd : Int} {header : Bool} {istm ostm : Option Stream} (orderly : Orderly s) (after : Steady next)
    (ran : step s (.accept ev fd header istm ostm) = some next) : Orderly next := by
  obtain ⟨⟨tidy,sound⟩,idle,once,flagged⟩ := orderly
  obtain ⟨⟨free,movable⟩,same⟩ := Option.ite_none_right_eq_some.mp ran
  cases Option.some.inj same
  have interest : ∀ other, Registered (if header then setEvent s.loop ev fun _ => eventInit fd EVMASK_NONE else s.loop) other →
      Registered s.loop other := by
    intro other there
    split at there <;> exact there
  refine ⟨after,?_,once,?_⟩
  · dsimp only
    split <;> exact idle
  · refine sockets_update ?_ fun other sock _ held there => flagged other sock held (interest other there)
    intro sock _ there
    exact absurd (sound.registered ev (interest ev there)) (unallocated_dead free movable)

theorem enable_orderly {thread : τ} {value : Bool} {faults : Faults} (orderly : Orderly s) (after : Steady next)
    (inside : InCallback s (.enable thread ev value faults)) (ran : step s (.enable thread ev value faults) = some next) :
    Orderly next := by
  obtain ⟨⟨tidy,_⟩,idle,once,flagged⟩ := orderly
  obtain ⟨own,granted⟩ := inside
  obtain ⟨sock,ret,sock',loop',held,enabled,rfl⟩ := enable_step tidy ran
  obtain ⟨touched,_⟩ := enabled.touched tidy.flat tidy.entries
  obtain ⟨keyed,_⟩ := tidy.keyed ev sock held
  have here := enabled.flagged tidy.entries own granted fun there => flagged ev sock held (keyed ▸ there)
  rw [keyed] at touched here
  refine ⟨after,enabled.idle own idle,once,?_⟩
  refine sockets_update ?_ fun other found away taken there => flagged other found taken (touched.registered other away there)
  intro found same
  cases Option.some.inj same
  exact here

theorem teardown_orderly {thread : τ} {faults : Faults} (orderly : Orderly s) (after : Steady next)
    (own : s.loop.me = thread) (ran : step s (.teardown thread ev faults) = some next) : Orderly next := by
  obtain ⟨⟨tidy,_⟩,idle,once,flagged⟩ := orderly
  obtain ⟨sock,ret,sock',loop',held,enabled,rfl⟩ := teardown_step tidy ran
  obtain ⟨touched,_⟩ := enabled.touched tidy.flat tidy.entries
  obtain ⟨keyed,_⟩ := tidy.keyed ev sock held
  rw [keyed] at touched
  refine ⟨after,enabled.idle own idle,once,?_⟩
  exact sockets_update (fun _ left => by cases left) fun other found away taken there =>
    flagged other found taken (touched.registered other away there)

end Orders

theorem orderly_step {s next : System π τ} {action : Action π τ} (orderly : Orderly s) (inside : InCallback s action)
    (ran : step s action = some next) : Orderly next := by
  have after := careful_steady orderly.steady (orderly_careful orderly inside) ran
  cases action with
  | accept ev fd header istm ostm => exact accept_orderly orderly after ran
  | enable thread ev value faults => exact enable_orderly orderly after inside ran
  | teardown thread ev faults => exact teardown_orderly orderly after inside.1 ran
  | poll batch =>
    obtain ⟨⟨_,_,nodup,_⟩,same⟩ := Option.ite_none_right_eq_some.mp ran
    cases Option.some.inj same
    exact ⟨after,orderly.idle,fetched_once orderly.steady.tidy.entries nodup,orderly.flagged⟩
  | dispatch =>
    have once := orderly.once
    simp only [step] at ran
    split at ran
    · cases ran
    · rename_i ready
      cases Option.some.inj ran
      rw [ready] at once
      exact ⟨after,orderly.idle,(List.nodup_append.mp once).2.1,orderly.flagged⟩
  | drain fuel faults =>
    obtain ⟨_,ran⟩ := Option.ite_none_right_eq_some.mp ran
    obtain ⟨⟨applied,loop'⟩,drained,rfl⟩ := Option.map_eq_some_iff.mp ran
    obtain ⟨_,_,emptied,_,from_⟩ := drain_effect orderly.steady.tidy.flat drained
    refine ⟨after,emptied,(List.nodup_append.mp orderly.once).2.1,?_⟩
    intro other sock held there
    rcases from_ other there with waiting | old
    · rw [orderly.idle] at waiting
      cases waiting
    · exact orderly.flagged other sock held old

theorem callback_teardown_safe (booted : Booted loop permanent) {actions : List (Action π τ)}
    (inside : Along step InCallback (start loop permanent) actions) :
    Along step (After step Unharmed) (start loop permanent) actions ∧ Along step Spares (start loop permanent) actions := by
  have begin := start_orderly booted
  have kept : ∀ (s : System π τ) action next, Orderly s → InCallback s action → step s action = some next → Orderly next :=
    fun s action next orderly inside ran => orderly_step orderly inside ran
  constructor
  · refine along_guarded kept ?_ begin inside
    intro s action orderly inside
    exact (unharmed_exact orderly.steady action).mpr (orderly_careful orderly inside)
  · refine along_guarded kept ?_ begin inside
    intro s action orderly _
    exact sound_spares orderly.steady.tidy orderly.steady.sound action

end Callbacks

instance (s : System Nat Nat) : ∀ action, Decidable (InCallback s action)
  | .accept _ _ _ _ _ => isTrue trivial
  | .enable _ _ _ _ => inferInstanceAs (Decidable (_ ∧ _))
  | .teardown _ _ _ => inferInstanceAs (Decidable (_ ∧ _))
  | .poll _ => isTrue trivial
  | .dispatch => isTrue trivial
  | .drain _ _ => isTrue trivial

-- Both sockets of one batch; the first is torn down in its callback.
def echoTeardown : List (Action Nat Nat) :=
  [.accept 3 7 true (some bareStream) (some bareStream),.enable 0 3 true (none,none),
    .accept 4 8 true (some bareStream) (some bareStream),.enable 0 4 true (none,none),
    .poll [(7,EPOLLIN),(8,EPOLLIN)],.dispatch,.teardown 0 3 (none,none),.dispatch,.drain 2 fun _ => (none,none)]

theorem echo_teardown_safe : (exec step (start wakeLoop wakes) echoTeardown).isSome ∧
    Along step (After step Unharmed) (start wakeLoop wakes) echoTeardown ∧ Along step Spares (start wakeLoop wakes) echoTeardown :=
  ⟨by decide +kernel,callback_teardown_safe wake_booted (by decide +kernel)⟩

end EventLib.DispatchSafety
