import EventLib.NetSockets
import EventLib.LabelledRuns

namespace EventLib.NetLedger
open NetSockets LabelledRuns Errnos

-- The new descriptor is compared with `fd` here as well, which stays -1.
def newsocket (texts : Texts) (s : Sockets) (a : Address) : Int × Sockets :=
  let made := socket s a
  if equals (-1) made.1 = -1 then (-1,netErr made.2 ("socket: " ++ texts.strerror made.2.errno)) else
  let reused := reuse texts made.2 a (-1)
  if reused.1 = -1 then (-1,close reused.2 (-1)) else (-1,reused.2)

-- The path only goes to `connect`.
def unixConnect (texts : Texts) (s : Sockets) (nonblock : Int) (a : Address) : Int × Sockets :=
  let made := newsocket texts s a
  if equals (-1) made.1 = -1 then (-1,made.2) else
  let unblocked := if nonblock = 1 then tcpNonblock texts made.2 a (-1) else (0,made.2)
  if unblocked.1 = -1 then (-1,unblocked.2) else
  match a.connect (-1) with
  | none => (-1,unblocked.2)
  | some errno =>
    let failed : Sockets := {unblocked.2 with errno:=errno}
    if errno = EINPROGRESS ∧ nonblock = 1 then (-1,failed)
    else (-1,close (netErr failed ("connect: " ++ texts.strerror errno)) (-1))

-- Nothing is made of what `chmod` answers.
def unixServer (texts : Texts) (s : Sockets) (a : Address) : Int × Sockets :=
  let made := newsocket texts s a
  if made.1 = -1 then (-1,made.2) else
  let listened := tcpListen texts made.2 a made.1
  if listened.1 = -1 then (-1,listened.2) else (made.1,listened.2)

inductive Call where
  | tcpConnect (nonblock : Int) (lookup : Except Int (List Address))
  | unixConnect (nonblock : Int) (a : Address)
  | tcpServer (port : Int) (bindaddr : Option String) (lookup : Except Int (List Address))
  | unixServer (a : Address)

def Call.run (texts : Texts) (errno : Int) (err : Option String) : Call → Int × Sockets
  | .tcpConnect nonblock lookup => NetSockets.tcpConnect texts errno err nonblock lookup
  | .unixConnect nonblock a => NetLedger.unixConnect texts (NetSockets.start errno err) nonblock a
  | .tcpServer port bindaddr lookup => NetSockets.tcpServer texts errno err port bindaddr lookup
  | .unixServer a => NetLedger.unixServer texts (NetSockets.start errno err) a

-- Everything returned so far and the descriptors that are open; `errno` and the
-- caller's text buffer go from call to call.
structure Process where
  returned : List Int
  held : List Nat
  errno : Int
  err : Option String

def start (errno : Int) (err : Option String) : Process := ⟨[],[],errno,err⟩

def step (texts : Texts) (p : Process) (call : Call) : Option Process :=
  let result := call.run texts p.errno p.err
  some ⟨p.returned++[result.1],p.held++result.2.held,result.2.errno,result.2.err⟩

section Meaning

-- The books by the kernel's answers alone: what each call gives back and what it
-- leaves open.
structure Books where
  returned : List Int
  held : List Nat

def serves (a : Address) (fd : Int) : Bool := a.bind fd = none && a.listen fd = none

def serving : Option (Address × Nat) → Int × List Nat
  | none => (-1,[])
  | some (a,fd) => if a.setsockopt fd ≠ none then (-1,[fd]) else if serves a fd then (fd,[fd]) else (-1,[])

-- A client call gives nothing back and leaves every socket it made; a server
-- call leaves one behind when the address cannot be reused.
def outcome : Call → Int × List Nat
  | .tcpConnect nonblock lookup => (-1,created (visited nonblock (found lookup)))
  | .unixConnect _ a => (-1,created [a])
  | .tcpServer _ _ lookup => serving (firstSocket (found lookup))
  | .unixServer a => (-1,created [a])

def enter (b : Books) (call : Call) : Option Books := some ⟨b.returned++[(outcome call).1],b.held++(outcome call).2⟩

def Process.books (p : Process) : Books := ⟨p.returned,p.held⟩

end Meaning

section Calls
variable {texts : Texts} {s : Sockets} {a : Address}

def books (result : Int × Sockets) : Int × List Nat := (result.1,result.2.held)

theorem equals_not_minus (x y : Int) : ¬ equals x y = -1 := by
  unfold equals
  split <;> decide

theorem newsocket_books : books (newsocket texts s a) = (-1,s.held++created [a]) := by
  have kept : (reuse texts (socket s a).2 a (-1)).2.held = s.held++created [a] := by
    rw [reuse,checked_ledger,socket_held]
  simp only [newsocket,if_neg (equals_not_minus _ _)]
  split
  · exact congrArg (Prod.mk (-1)) kept
  · exact congrArg (Prod.mk (-1)) kept

theorem unixServer_books : books (unixServer texts s a) = (-1,s.held++created [a]) := by
  have made : books (newsocket texts s a) = (-1,s.held++created [a]) := newsocket_books
  have minus : (newsocket texts s a).1 = -1 := congrArg Prod.fst made
  simp only [unixServer,if_pos minus]
  exact congrArg (Prod.mk (-1)) (congrArg Prod.snd made)

theorem unixConnect_books {nonblock : Int} : books (unixConnect texts s nonblock a) = (-1,s.held++created [a]) := by
  have made : (newsocket texts s a).2.held = s.held++created [a] := congrArg Prod.snd newsocket_books
  have kept : (if nonblock = 1 then tcpNonblock texts (newsocket texts s a).2 a (-1)
      else (0,(newsocket texts s a).2)).2.held = s.held++created [a] := by
    split
    · rw [nonblock_ledger,made]
    · exact made
  simp only [unixConnect,if_neg (equals_not_minus _ _)]
  generalize (if nonblock = 1 then tcpNonblock texts (newsocket texts s a).2 a (-1)
    else (0,(newsocket texts s a).2)) = unblocked at kept ⊢
  split
  · exact congrArg (Prod.mk (-1)) kept
  · cases a.connect (-1) with
    | none => exact congrArg (Prod.mk (-1)) kept
    | some errno =>
      dsimp only
      split
      · exact congrArg (Prod.mk (-1)) kept
      · exact congrArg (Prod.mk (-1)) kept

theorem tcpConnect_books {errno nonblock : Int} {err : Option String} {lookup : Except Int (List Address)} :
    books (NetSockets.tcpConnect texts errno err nonblock lookup) = (-1,created (visited nonblock (found lookup))) := by
  cases lookup with
  | error rv => rfl
  | ok addresses =>
    obtain ⟨minus,kept⟩ := connect_returns texts (NetSockets.start errno err) addresses
    exact Prod.ext minus kept

theorem listen_books {fd : Nat} (owned : s.toLedger = ⟨[fd],[],[],[]⟩) :
    ((tcpListen texts s a fd).1,(tcpListen texts s a fd).2.held) = if serves a fd then (0,[fd]) else (-1,[]) := by
  have held : s.held = [fd] := congrArg Ledger.held owned
  unfold tcpListen serves
  cases bound : a.bind fd with
  | some errno =>
    have closed := close_owned (s:=(checked texts s "bind: " (some errno)).2) held
    simp only [checked_failed (Option.some_ne_none errno),if_true,closed]
    rfl
  | none =>
    simp only [checked_passed]
    cases opened : a.listen fd with
    | some errno =>
      have closed := close_owned
        (s:=(checked texts {s with bound:=s.bound++[(fd : Int)]} "listen: " (some errno)).2) held
      simp only [checked_failed (Option.some_ne_none errno),if_true,closed]
      rfl
    | none =>
      simp only [checked_passed]
      exact congrArg (Prod.mk 0) held

-- Induction on the addresses: the first that gets a socket decides.
theorem serverLoop_books {bindaddr : Option String} {port : Int} {addresses : List Address}
    (fresh : s.toLedger = ⟨[],[],[],[]⟩) :
    books (serverLoop texts bindaddr port addresses s) = serving (firstSocket addresses) := by
  induction addresses generalizing s with
  | nil => exact congrArg (Prod.mk (-1)) (congrArg Ledger.held fresh)
  | cons a rest ih =>
    cases made : a.socket with
    | error errno =>
      simp only [serverLoop,socket,made,if_true,firstSocket]
      exact ih fresh
    | ok fd =>
      have real : ¬ (fd : Int) = -1 := by omega
      obtain ⟨t,taken,owned⟩ := socket_owned made fresh
      simp only [serverLoop,taken,if_neg real,firstSocket,made,serving]
      by_cases ready : a.setsockopt fd = none
      · have listened : ((tcpListen texts t a fd).1,(tcpListen texts t a fd).2.held) = _ := listen_books owned
        have zero : ¬ (0 : Int) = -1 := by decide
        simp only [reuse_passed ready,ready,ne_eq,not_true_eq_false,if_false,if_neg zero]
        by_cases opens : serves a fd
        · rw [if_pos opens] at listened ⊢
          have ok : ¬ (tcpListen texts t a fd).1 = -1 := by rw [congrArg Prod.fst listened]; exact zero
          rw [if_neg ok]
          exact congrArg (Prod.mk (fd : Int)) (congrArg Prod.snd listened)
        · rw [if_neg opens] at listened ⊢
          rw [if_pos (congrArg Prod.fst listened)]
          exact congrArg (Prod.mk (-1)) (congrArg Prod.snd listened)
      · have failed : (reuse texts t a fd).1 = -1 := checked_failed ready
        rw [if_pos failed,if_pos ready]
        exact congrArg (Prod.mk (-1)) ((congrArg Ledger.held checked_ledger).trans (congrArg Ledger.held owned))

theorem run_books (errno : Int) (err : Option String) (call : Call) : books (call.run texts errno err) = outcome call := by
  cases call with
  | tcpConnect nonblock lookup => exact tcpConnect_books
  | unixConnect nonblock a => exact unixConnect_books
  | tcpServer port bindaddr lookup =>
    cases lookup with
    | error rv => rfl
    | ok addresses => exact serverLoop_books rfl
  | unixServer a => exact unixServer_books

end Calls

-- Only `tcp_server` ever gives a descriptor back; what the other calls got from
-- the kernel stays open for good, with nobody knowing its number.
theorem net_books_exact (texts : Texts) (errno : Int) (err : Option String) (calls : List Call) :
    (exec (step texts) (start errno err) calls).map Process.books = exec enter ⟨[],[]⟩ calls := by
  have always : Along (step texts) (fun _ _ => True) (start errno err) calls := along_true
  refine exec_view ?_ (fun _ _ _ _ _ _ => trivial) (show (fun _ => True) (start errno err) from trivial) always
  intro p call _ _
  have same : books (call.run texts p.errno p.err) = outcome call := run_books p.errno p.err call
  rw [enter,← same]
  rfl

end EventLib.NetLedger
