import EventLib.Errno
import Mathlib.Data.List.Basic

namespace EventLib.NetSockets
open Errnos

def ERR_LEN : Nat := 256

-- What the kernel does for one address of the list from `getaddrinfo`: a new
-- descriptor or an errno, and for the other calls an answer to each descriptor
-- they may be given, `none` being success.
structure Address where
  socket : Except Int Nat
  setsockopt : Int → Option Int
  getfl : Int → Option Int
  setfl : Int → Option Int
  connect : Int → Option Int
  bind : Int → Option Int
  listen : Int → Option Int

-- `held` are the descriptors the call created and has not closed, `stray` what
-- `close` was given besides.
structure Ledger where
  held : List Nat
  stray : List Int
  bound : List Int
  listening : List Int
deriving DecidableEq

-- `err` is the text buffer of the caller, `none` for NULL.
structure Sockets extends Ledger where
  errno : Int
  err : Option String
deriving DecidableEq

structure Texts where
  strerror : Int → String
  gaiStrerror : Int → String

def start (errno : Int) (err : Option String) : Sockets := ⟨⟨[],[],[],[]⟩,errno,err⟩

def netErr (s : Sockets) (text : String) : Sockets :=
  {s with err:=s.err.map fun _ => String.ofList (text.toList.take (ERR_LEN-1))}

def socket (s : Sockets) (a : Address) : Int × Sockets :=
  match a.socket with
  | .error errno => (-1,{s with errno:=errno})
  | .ok fd => (fd,{s with held:=s.held++[fd]})

def close (s : Sockets) : Int → Sockets
  | .ofNat fd =>
    if fd ∈ s.held then {s with held:=s.held.erase fd} else {s with stray:=s.stray++[.ofNat fd],errno:=EBADF}
  | .negSucc n => {s with stray:=s.stray++[.negSucc n],errno:=EBADF}

-- A system call that leaves its message when it fails.
def checked (texts : Texts) (s : Sockets) (what : String) : Option Int → Int × Sockets
  | none => (0,s)
  | some errno => (-1,netErr {s with errno:=errno} (what ++ texts.strerror errno))

def reuse (texts : Texts) (s : Sockets) (a : Address) (fd : Int) : Int × Sockets :=
  checked texts s "setsockopt SO_REUSEADDR: " (a.setsockopt fd)

def tcpNonblock (texts : Texts) (s : Sockets) (a : Address) (fd : Int) : Int × Sockets :=
  let got := checked texts s "fcntl F_GETFL: " (a.getfl fd)
  if got.1 = -1 then got else checked texts got.2 "fcntl F_SETFL O_NONBLOCK: " (a.setfl fd)

def tcpListen (texts : Texts) (s : Sockets) (a : Address) (fd : Int) : Int × Sockets :=
  let named := checked texts s "bind: " (a.bind fd)
  if named.1 = -1 then (-1,close named.2 fd) else
  let opened := checked texts {named.2 with bound:=named.2.bound++[fd]} "listen: " (a.listen fd)
  if opened.1 = -1 then (-1,close opened.2 fd) else (0,{opened.2 with listening:=opened.2.listening++[fd]})

-- The value of `x == y`.
def equals (x y : Int) : Int := if x = y then 1 else 0

-- The loop of `tcp_connect` with the failure exit behind it. What `socket` returns is
-- compared with `fd`, not assigned to it.
def connectLoop (texts : Texts) (nonblock fd : Int) : List Address → Sockets → Int × Sockets
  | [],s => (-1,netErr s ("connecting " ++ texts.strerror s.errno))
  | a::rest,s =>
    let made := socket s a
    if equals fd made.1 = -1 then connectLoop texts nonblock fd rest made.2 else
    let reused := reuse texts made.2 a fd
    if reused.1 = -1 then (-1,reused.2) else
    let unblocked := if nonblock = 1 then tcpNonblock texts reused.2 a fd else (0,reused.2)
    if unblocked.1 ≠ 0 then (-1,unblocked.2) else
    match a.connect fd with
    | none => (fd,unblocked.2)
    | some errno =>
      let failed : Sockets := {unblocked.2 with errno:=errno}
      if errno = EINPROGRESS ∧ nonblock = 1 then (fd,failed) else connectLoop texts nonblock fd rest (close failed fd)

-- Host and port only go to `getaddrinfo`, whose outcome is `lookup`.
def tcpConnect (texts : Texts) (errno : Int) (err : Option String) (nonblock : Int)
    (lookup : Except Int (List Address)) : Int × Sockets :=
  match lookup with
  | .error rv => (-1,netErr (start errno err) (texts.gaiStrerror rv))
  | .ok addresses => connectLoop texts nonblock (-1) addresses (start errno err)

def serverLoop (texts : Texts) (bindaddr : Option String) (port : Int) : List Address → Sockets → Int × Sockets
  | [],s => (-1,netErr s ("bind to addr error: " ++ bindaddr.getD "(null)" ++ ":" ++ toString port))
  | a::rest,s =>
    let made := socket s a
    if made.1 = -1 then serverLoop texts bindaddr port rest made.2 else
    let reused := reuse texts made.2 a made.1
    if reused.1 = -1 then (-1,reused.2) else
    let listened := tcpListen texts reused.2 a made.1
    if listened.1 = -1 then (-1,listened.2) else (made.1,listened.2)

def tcpServer (texts : Texts) (errno : Int) (err : Option String) (port : Int) (bindaddr : Option String)
    (lookup : Except Int (List Address)) : Int × Sockets :=
  match lookup with
  | .error rv => (-1,netErr (start errno err) (texts.gaiStrerror rv))
  | .ok addresses => serverLoop texts bindaddr port addresses (start errno err)

variable {texts : Texts} {s : Sockets} {a : Address} {addresses rest : List Address} {nonblock fd : Int}

@[simp] theorem netErr_ledger : (netErr s text).toLedger = s.toLedger := rfl

@[simp] theorem checked_ledger : (checked texts s what answer).2.toLedger = s.toLedger := by
  cases answer <;> rfl

@[simp] theorem checked_passed : checked texts s what none = (0,s) := rfl

theorem checked_failed (failed : answer ≠ none) : (checked texts s what answer).1 = -1 := by
  cases answer with
  | none => exact absurd rfl failed
  | some errno => rfl

theorem reuse_passed (ready : a.setsockopt fd = none) : reuse texts s a fd = (0,s) := by
  rw [reuse,ready,checked_passed]

theorem nonblock_ledger : (tcpNonblock texts s a fd).2.toLedger = s.toLedger := by
  unfold tcpNonblock
  dsimp only
  split <;> simp

theorem nonblock_passed (got : a.getfl fd = none) (set : a.setfl fd = none) : tcpNonblock texts s a fd = (0,s) := by
  simp [tcpNonblock,got,set]

theorem nonblock_failed (failed : ¬ (a.getfl fd = none ∧ a.setfl fd = none)) : (tcpNonblock texts s a fd).1 = -1 := by
  unfold tcpNonblock
  by_cases got : a.getfl fd = none
  · have set : a.setfl fd ≠ none := fun also => failed ⟨got,also⟩
    simp [got,checked_failed set]
  · simp [checked_failed got]

section Connect

-- What the loop asks of a descriptor before `connect`.
def Prepared (nonblock : Int) (a : Address) (fd : Int) : Prop :=
  a.setsockopt fd = none ∧ (nonblock = 1 → a.getfl fd = none ∧ a.setfl fd = none)

def Connects (nonblock : Int) (a : Address) (fd : Int) : Prop :=
  a.connect fd = none ∨ a.connect fd = some EINPROGRESS ∧ nonblock = 1

instance : Decidable (Prepared nonblock a fd) := inferInstanceAs (Decidable (_ ∧ _))
instance : Decidable (Connects nonblock a fd) := inferInstanceAs (Decidable (_ ∨ _))

-- The descriptor to return: of the first address that connects, unless one
-- before it could not be prepared.
def reach (nonblock : Int) : List Address → Option Nat
  | [] => none
  | a::rest =>
    match a.socket with
    | .error _ => reach nonblock rest
    | .ok fd => if Prepared nonblock a fd then if Connects nonblock a fd then some fd else reach nonblock rest else none

structure Delivers (nonblock : Int) (addresses : List Address) (result : Int × Sockets) : Prop where
  reached : ∀ fd, reach nonblock addresses = some fd → result.1 = fd
  unreached : (∀ a ∈ addresses, ∀ fd : Nat, a.socket = .ok fd → ¬ Connects nonblock a fd) → result.1 = -1
  released : result.2.held.map Int.ofNat = if result.1 = -1 then [] else [result.1]

def found : Except Int (List Address) → List Address
  | .error _ => []
  | .ok addresses => addresses

-- The addresses the loop gets to, judged by the answers to descriptor -1.
def visited (nonblock : Int) : List Address → List Address
  | [] => []
  | a::rest => a::if Prepared nonblock a (-1) ∧ ¬ Connects nonblock a (-1) then visited nonblock rest else []

def created (addresses : List Address) : List Nat := addresses.filterMap fun a => a.socket.toOption

theorem socket_held : (socket s a).2.held = s.held ++ created [a] := by
  cases made : a.socket <;> simp [socket,created,made,Except.toOption]

theorem connect_step (texts : Texts) (nonblock fd : Int) (s : Sockets) (a : Address) (rest : List Address) :
    ∃ s' : Sockets, s'.toLedger = (socket s a).2.toLedger ∧
      connectLoop texts nonblock fd (a::rest) s =
        if Prepared nonblock a fd then
          if Connects nonblock a fd then (fd,s') else connectLoop texts nonblock fd rest (close s' fd)
        else (-1,s') := by
  have assigned : ¬ equals fd (socket s a).1 = -1 := by
    unfold equals
    split <;> decide
  simp only [connectLoop,if_neg assigned]
  by_cases ready : a.setsockopt fd = none
  · have reused : reuse texts (socket s a).2 a fd = (0,(socket s a).2) := reuse_passed ready
    by_cases unblocks : nonblock = 1 → a.getfl fd = none ∧ a.setfl fd = none
    · have prepared : Prepared nonblock a fd := ⟨ready,unblocks⟩
      have unblocked : (if nonblock = 1 then tcpNonblock texts (socket s a).2 a fd else (0,(socket s a).2)) =
          (0,(socket s a).2) := by
        split
        · rename_i flag
          exact nonblock_passed (unblocks flag).1 (unblocks flag).2
        · rfl
      simp only [reused,unblocked,if_pos prepared]
      cases answer : a.connect fd with
      | none =>
        have connects : Connects nonblock a fd := Or.inl answer
        exact ⟨(socket s a).2,rfl,by simp [connects]⟩
      | some errno =>
        have connects : Connects nonblock a fd ↔ errno = EINPROGRESS ∧ nonblock = 1 := by simp [Connects,answer]
        refine ⟨{(socket s a).2 with errno:=errno},rfl,?_⟩
        simp [connects]
    · have flag : nonblock = 1 := by
        by_contra other
        exact unblocks fun same => absurd same other
      have failed : ¬ (a.getfl fd = none ∧ a.setfl fd = none) := fun both => unblocks fun _ => both
      have unprepared : ¬ Prepared nonblock a fd := fun prepared => unblocks prepared.2
      refine ⟨(tcpNonblock texts (socket s a).2 a fd).2,nonblock_ledger,?_⟩
      simp [reused,flag,nonblock_failed failed,if_neg (flag ▸ unprepared)]
  · have unprepared : ¬ Prepared nonblock a fd := fun prepared => ready prepared.1
    refine ⟨(reuse texts (socket s a).2 a fd).2,checked_ledger,?_⟩
    have failed : (reuse texts (socket s a).2 a fd).1 = -1 := checked_failed ready
    rw [if_pos failed,if_neg unprepared]

theorem created_cons : created (a::rest) = created [a] ++ created rest := by
  rw [← List.singleton_append,created,List.filterMap_append]
  rfl

theorem close_none : (close s (-1)).held = s.held := rfl

-- Induction on the addresses: `fd` is -1 all along, so whatever a pass does, no
-- descriptor of `socket` is closed or returned.
theorem connect_returns (texts : Texts) (s : Sockets) (addresses : List Address) :
    (connectLoop texts nonblock (-1) addresses s).1 = -1 ∧
      (connectLoop texts nonblock (-1) addresses s).2.held = s.held ++ created (visited nonblock addresses) := by
  induction addresses generalizing s with
  | nil => exact ⟨rfl,(List.append_nil _).symm⟩
  | cons a rest ih =>
    obtain ⟨s',ledger,step⟩ := connect_step texts nonblock (-1) s a rest
    have held : s'.held = s.held ++ created [a] := (congrArg Ledger.held ledger).trans socket_held
    have next := ih (close s' (-1))
    rw [close_none,held] at next
    rw [step,visited,created_cons]
    by_cases prepared : Prepared nonblock a (-1)
    · by_cases connects : Connects nonblock a (-1)
      · simp [prepared,connects,held,created]
      · simp only [if_pos prepared,if_neg connects,if_pos (And.intro prepared connects),← List.append_assoc]
        exact next
    · simp [prepared,held,created]

theorem created_nil_iff : created addresses = [] ↔ ∀ a ∈ addresses, a.socket.toOption = none := by
  simp [created,List.filterMap_eq_nil_iff]

theorem connect_delivers_iff (texts : Texts) (errno : Int) (err : Option String) (nonblock : Int)
    (lookup : Except Int (List Address)) :
    Delivers nonblock (found lookup) (tcpConnect texts errno err nonblock lookup) ↔
      reach nonblock (found lookup) = none ∧ ∀ a ∈ visited nonblock (found lookup), a.socket.toOption = none := by
  have returns : (tcpConnect texts errno err nonblock lookup).1 = -1 ∧
      (tcpConnect texts errno err nonblock lookup).2.held = created (visited nonblock (found lookup)) := by
    cases lookup with
    | error rv => exact ⟨rfl,rfl⟩
    | ok addresses => exact connect_returns texts (start errno err) addresses
  rw [← created_nil_iff]
  constructor
  · intro delivers
    have released := delivers.released
    rw [returns.1,returns.2,if_pos rfl,List.map_eq_nil_iff] at released
    refine ⟨?_,released⟩
    cases reached : reach nonblock (found lookup) with
    | none => rfl
    | some fd =>
      have same := delivers.reached fd reached
      rw [returns.1] at same
      cases same
  · rintro ⟨unreached,none_created⟩
    refine ⟨?_,fun _ => returns.1,by rw [returns.1,returns.2,none_created,if_pos rfl,List.map_nil]⟩
    intro fd reached
    rw [unreached] at reached
    cases reached

-- Calls on -1 fail, calls on a descriptor succeed: the address would connect.
def answering (fd : Int) : Option Int := if fd = -1 then some EBADF else none
def reachableAddress : Address := ⟨.ok 5,answering,answering,answering,answering,answering,answering⟩
def silent : Texts := ⟨fun _ => "",fun _ => ""⟩

theorem reachable_address_lost : reach 0 [reachableAddress] = some 5 ∧
    tcpConnect silent 0 none 0 (.ok [reachableAddress]) = (-1,⟨⟨[5],[],[],[]⟩,EBADF,none⟩) := by decide

end Connect

section Server

structure Released (result : Int × Sockets) : Prop where
  failed : result.1 = -1 → result.2.held = []
  returned : result.1 ≠ -1 → result.2.held.map Int.ofNat = [result.1] ∧ result.1 ∈ result.2.bound ∧
    result.1 ∈ result.2.listening
  once : result.2.stray = []

def firstSocket : List Address → Option (Address × Nat)
  | [] => none
  | a::rest =>
    match a.socket with
    | .error _ => firstSocket rest
    | .ok fd => some (a,fd)

theorem close_owned {fd : Nat} (owned : s.held = [fd]) : close s fd = {s with held:=[]} := by
  have member : fd ∈ s.held := by rw [owned]; exact List.mem_singleton_self fd
  show (if fd ∈ s.held then _ else _) = _
  rw [if_pos member,owned,List.erase_cons_head]

theorem released_closed {fd : Nat} (owned : s.held = [fd]) (once : s.stray = []) : Released (-1,close s fd) := by
  rw [close_owned owned]
  exact ⟨fun _ => rfl,fun other => absurd rfl other,once⟩

-- From here on the descriptor belongs to `tcp_listen`, which closes it itself.
theorem listen_released {fd : Nat} (texts : Texts) (a : Address) (owned : s.toLedger = ⟨[fd],[],[],[]⟩) :
    Released (if (tcpListen texts s a fd).1 = -1 then (-1,(tcpListen texts s a fd).2) else (fd,(tcpListen texts s a fd).2)) := by
  obtain ⟨ledger,errno,err⟩ := s
  cases owned
  unfold tcpListen
  by_cases bound : a.bind fd = none
  · by_cases opened : a.listen fd = none
    · have real : (fd : Int) ≠ -1 := by omega
      simp only [bound,opened,checked_passed]
      refine ⟨fun minus => absurd minus real,fun _ => ⟨rfl,?_,?_⟩,rfl⟩ <;> simp
    · have zero : ¬ (0 : Int) = -1 := by decide
      simp only [bound,checked_passed,if_neg zero,if_pos (checked_failed opened),if_true]
      exact released_closed (congrArg Ledger.held checked_ledger) (congrArg Ledger.stray checked_ledger)
  · rw [if_pos (checked_failed bound)]
    exact released_closed (congrArg Ledger.held checked_ledger) (congrArg Ledger.stray checked_ledger)

theorem socket_owned {fd : Nat} (made : a.socket = .ok fd) (fresh : s.toLedger = ⟨[],[],[],[]⟩) :
    ∃ t : Sockets, socket s a = ((fd : Int),t) ∧ t.toLedger = ⟨[fd],[],[],[]⟩ := by
  obtain ⟨ledger,errno,err⟩ := s
  cases fresh
  simp [socket,made]

-- Induction on the addresses: those without a socket leave nothing behind, and
-- the first with one ends the loop.
theorem serverLoop_released_iff (texts : Texts) (bindaddr : Option String) (port : Int) (addresses : List Address)
    (fresh : s.toLedger = ⟨[],[],[],[]⟩) : Released (serverLoop texts bindaddr port addresses s) ↔
      ∀ a fd, firstSocket addresses = some (a,fd) → a.setsockopt fd = none := by
  induction addresses generalizing s with
  | nil =>
    refine iff_of_true ⟨fun _ => congrArg Ledger.held fresh,fun other => absurd rfl other,congrArg Ledger.stray fresh⟩ ?_
    intro a fd none_first
    cases none_first
  | cons a rest ih =>
    cases made : a.socket with
    | error errno =>
      have skipped : serverLoop texts bindaddr port (a::rest) s = serverLoop texts bindaddr port rest {s with errno:=errno} := by
        simp only [serverLoop,socket,made,if_true]
      have next : firstSocket (a::rest) = firstSocket rest := by simp only [firstSocket,made]
      rw [skipped,next]
      exact ih fresh
    | ok fd =>
      have real : ¬ (fd : Int) = -1 := by omega
      have first : firstSocket (a::rest) = some (a,fd) := by simp only [firstSocket,made]
      obtain ⟨t,taken,owned⟩ := socket_owned made fresh
      simp only [serverLoop,taken,if_neg real,first,Option.some.injEq,Prod.mk.injEq,and_imp]
      by_cases ready : a.setsockopt fd = none
      · rw [reuse_passed ready]
        refine iff_of_true (listen_released texts a owned) ?_
        rintro _ _ rfl rfl
        exact ready
      · have failed : (reuse texts t a fd).1 = -1 := checked_failed ready
        rw [if_pos failed]
        refine iff_of_false ?_ fun all => ready (all a fd rfl rfl)
        intro released
        have kept := released.failed rfl
        have ledger : (reuse texts t a fd).2.toLedger = ⟨[fd],[],[],[]⟩ := checked_ledger.trans owned
        rw [ledger] at kept
        cases kept

theorem server_releases_iff (texts : Texts) (errno : Int) (err : Option String) (port : Int) (bindaddr : Option String)
    (lookup : Except Int (List Address)) : Released (tcpServer texts errno err port bindaddr lookup) ↔
      ∀ a fd, firstSocket (found lookup) = some (a,fd) → a.setsockopt fd = none := by
  cases lookup with
  | error rv =>
    refine iff_of_true ⟨fun _ => rfl,fun other => absurd rfl other,rfl⟩ ?_
    intro a fd none_first
    cases none_first
  | ok addresses => exact serverLoop_released_iff texts bindaddr port addresses rfl

-- The error is ENOBUFS.
def unreusableAddress : Address := {reachableAddress with setsockopt:=fun _ => some 105}

theorem unreusable_descriptor_leaks :
    tcpServer silent 0 none 80 none (.ok [unreusableAddress]) = (-1,⟨⟨[5],[],[],[]⟩,105,none⟩) := by decide

end Server
end EventLib.NetSockets
