import EventLib.ResourceLedger
import EventLib.LabelledRuns
import EventLib.Socket

namespace EventLib.Ownership
open ResourceLedger LabelledRuns

abbrev Memory := Holdings Nat
abbrev Files := Holdings Int

-- The blocks an object consists of, by address.
structure BufferBlocks where
  header : Nat
  block : Nat

structure StreamBlocks where
  stm : Nat
  buf : BufferBlocks

-- `fd` is the descriptor the object was made for; it is no block of it.
structure SocketBlocks where
  sock : Nat
  istm : StreamBlocks
  ostm : StreamBlocks
  fd : Int

def BufferBlocks.all (b : BufferBlocks) : List Nat := [b.block,b.header]
def StreamBlocks.all (s : StreamBlocks) : List Nat := s.buf.all++[s.stm]
def SocketBlocks.all (s : SocketBlocks) : List Nat := s.istm.all++(s.ostm.all++[s.sock])

-- What `alloc` answers to each request a creation may come to.
structure StreamAnswers where
  stm : Option Nat
  header : Option Nat
  block : Option Nat

structure SocketAnswers where
  sock : Option Nat
  istm : StreamAnswers
  ostm : StreamAnswers

def bufferNew (m : Memory) (header block : Option Nat) : Option (Option BufferBlocks × Memory) :=
  (acquire m header).bind fun
    | (none,m) => some (none,m)
    | (some header,m) => (acquire m block).map fun
      | (none,m) => (none,release m header)
      | (some block,m) => (some ⟨header,block⟩,m)

def bufferFree (m : Memory) (b : BufferBlocks) : Memory := release (release m b.block) b.header

def streamNew (m : Memory) (a : StreamAnswers) : Option (Option StreamBlocks × Memory) :=
  (acquire m a.stm).bind fun
    | (none,m) => some (none,m)
    | (some stm,m) => (bufferNew m a.header a.block).map fun
      | (none,m) => (none,release m stm)
      | (some buf,m) => (some ⟨stm,buf⟩,m)

-- The descriptor is not closed.
def streamFree (m : Memory) (s : StreamBlocks) : Memory := release (bufferFree m s.buf) s.stm

-- With one stream missing only `sock` itself is given back.
def socketNewFromFd (m : Memory) (fd : Int) (a : SocketAnswers) : Option (Option SocketBlocks × Memory) :=
  (acquire m a.sock).bind fun
    | (none,m) => some (none,m)
    | (some sock,m) => (streamNew m a.istm).bind fun (istm,m) => (streamNew m a.ostm).map fun (ostm,m) =>
      match istm,ostm with
      | some istm,some ostm => (some ⟨sock,istm,ostm,fd⟩,m)
      | _,_ => (none,release m sock)

def socketFree (m : Memory) (s : SocketBlocks) : Memory := release (streamFree (streamFree m s.istm) s.ostm) s.sock

structure Server where
  memory : Memory
  files : Files
  sockets : List SocketBlocks

inductive Label where
  | accept (fd : Option Int) (answers : SocketAnswers)
  | teardown (which : Nat)

def start : Server := ⟨⟨[],false⟩,⟨[],false⟩,[]⟩

-- `_accept_dispatch`, and the way a callback gets rid of its socket: `shutdown`
-- leaves the descriptor open, and so does `socket_free`.
def step (s : Server) : Label → Option Server
  | .accept fd answers => (acquire s.files fd).bind fun
    | (none,files) => some {s with files:=files}
    | (some fd,files) => (socketNewFromFd s.memory fd answers).map fun
      | (none,memory) => {s with memory:=memory,files:=release files fd}
      | (some sock,memory) => ⟨memory,files,s.sockets++[sock]⟩
  | .teardown which => s.sockets[which]?.map fun sock =>
      {s with memory:=socketFree s.memory sock,sockets:=s.sockets.eraseIdx which}

-- What the answers amount to: the object if all of them are blocks.
def bufferMade (header block : Option Nat) : Option BufferBlocks := header.bind fun header => block.map fun block => ⟨header,block⟩

def StreamAnswers.made (a : StreamAnswers) : Option StreamBlocks := a.stm.bind fun stm => (bufferMade a.header a.block).map fun buf => ⟨stm,buf⟩

def SocketAnswers.made (a : SocketAnswers) (fd : Int) : Option SocketBlocks :=
  a.sock.bind fun sock => a.istm.made.bind fun istm => a.ostm.made.map fun ostm => ⟨sock,istm,ostm,fd⟩

def owned (all : β → List Nat) (made : Option β) : List Nat := made.toList.flatMap all

-- The blocks of a stream that was opened for a socket that was not.
def SocketAnswers.stray (a : SocketAnswers) : List Nat :=
  if a.sock.isSome ∧ a.istm.made.isSome ≠ a.ostm.made.isSome then
    owned StreamBlocks.all a.istm.made++owned StreamBlocks.all a.ostm.made
  else []

section Creation
variable {m next : Memory} {held : List Nat}

theorem bufferNew_accounts {header block : Option Nat} {got : Option BufferBlocks} (accounts : Accounts m held)
    (ran : bufferNew m header block = some (got,next)) :
    got = bufferMade header block ∧ Accounts next (owned BufferBlocks.all got++held) := by
  obtain ⟨⟨first,m'⟩,taken,body⟩ := Option.bind_eq_some_iff.mp ran
  obtain ⟨rfl,after⟩ := acquire_accounts accounts taken
  cases first with
  | none =>
    cases Option.some.inj body
    exact ⟨rfl,after⟩
  | some header =>
    obtain ⟨⟨second,m''⟩,taken',same⟩ := Option.map_eq_some_iff.mp body
    obtain ⟨rfl,after'⟩ := acquire_accounts after taken'
    cases second with
    | none =>
      cases same
      exact ⟨rfl,release_accounts after'⟩
    | some block =>
      cases same
      exact ⟨rfl,after'⟩

theorem streamNew_accounts {a : StreamAnswers} {got : Option StreamBlocks} (accounts : Accounts m held)
    (ran : streamNew m a = some (got,next)) : got = a.made ∧ Accounts next (owned StreamBlocks.all got++held) := by
  obtain ⟨⟨_,m'⟩,taken,ran⟩ := Option.bind_eq_some_iff.mp ran
  obtain ⟨rfl,after⟩ := acquire_accounts accounts taken
  unfold StreamAnswers.made
  cases opened : a.stm with
  | none =>
    rw [opened] at ran after
    cases Option.some.inj ran
    exact ⟨rfl,after⟩
  | some stm =>
    rw [opened] at ran after
    obtain ⟨⟨buf,m''⟩,taken',same⟩ := Option.map_eq_some_iff.mp ran
    obtain ⟨rfl,after'⟩ := bufferNew_accounts after taken'
    cases made : bufferMade a.header a.block with
    | none =>
      rw [made] at same after'
      cases same
      exact ⟨rfl,release_accounts after'⟩
    | some buf =>
      rw [made] at same after'
      cases same
      refine ⟨rfl,after'.reorder ?_⟩
      simp [owned,StreamBlocks.all]

theorem socketNew_accounts {fd : Int} {a : SocketAnswers} {got : Option SocketBlocks} (accounts : Accounts m held)
    (ran : socketNewFromFd m fd a = some (got,next)) :
    got = a.made fd ∧ Accounts next (owned SocketBlocks.all got++(a.stray++held)) := by
  obtain ⟨⟨_,m'⟩,taken,ran⟩ := Option.bind_eq_some_iff.mp ran
  obtain ⟨rfl,after⟩ := acquire_accounts accounts taken
  unfold SocketAnswers.made SocketAnswers.stray
  cases opened : a.sock with
  | none =>
    rw [opened] at ran after
    cases Option.some.inj ran
    exact ⟨rfl,after⟩
  | some sock =>
    rw [opened] at ran after
    obtain ⟨⟨istm,first⟩,input,ran⟩ := Option.bind_eq_some_iff.mp ran
    obtain ⟨rfl,after⟩ := streamNew_accounts after input
    obtain ⟨⟨ostm,second⟩,output,same⟩ := Option.map_eq_some_iff.mp ran
    obtain ⟨rfl,after⟩ := streamNew_accounts after output
    cases imade : a.istm.made with
    | none =>
      rw [imade] at same after
      cases omade : a.ostm.made with
      | none =>
        rw [omade] at same after
        cases same
        exact ⟨rfl,release_accounts after⟩
      | some ostm =>
        rw [omade] at same after
        cases same
        refine ⟨rfl,release_accounts (after.reorder ?_)⟩
        simp [owned]
    | some istm =>
      rw [imade] at same after
      cases omade : a.ostm.made with
      | none =>
        rw [omade] at same after
        cases same
        refine ⟨rfl,release_accounts (after.reorder ?_)⟩
        simp [owned]
      | some ostm =>
        rw [omade] at same after
        cases same
        refine ⟨rfl,after.reorder ?_⟩
        simp [owned,SocketBlocks.all,List.perm_append_comm_assoc]

theorem streamFree_accounts {stm : StreamBlocks} (accounts : Accounts m (stm.all++held)) : Accounts (streamFree m stm) held :=
  release_accounts (release_accounts (release_accounts accounts))

theorem socketFree_accounts {sock : SocketBlocks} (accounts : Accounts m (sock.all++held)) : Accounts (socketFree m sock) held := by
  have shaped : Accounts m (sock.istm.all++(sock.ostm.all++(sock.sock::held))) := accounts.reorder (by simp [SocketBlocks.all])
  have input := streamFree_accounts shaped
  have output := streamFree_accounts input
  exact release_accounts output

end Creation

section Runs
variable {s next last : Server} {label : Label} {labels : List Label} {lost : List Nat} {fds : List Int}

-- What a call adds for good: the blocks of a stream nobody knows of, and the
-- descriptor of a socket.
def Label.stray : Label → List Nat
  | .accept (some _) answers => answers.stray
  | _ => []

def Label.wrapped : Label → List Int
  | .accept (some fd) answers => (answers.made fd).toList.map SocketBlocks.fd
  | _ => []

structure Books (s : Server) (lost : List Nat) (fds : List Int) : Prop where
  memory : Accounts s.memory (s.sockets.flatMap SocketBlocks.all++lost)
  files : Accounts s.files fds

theorem made_fd {answers : SocketAnswers} {fd : Int} {sock : SocketBlocks} (made : answers.made fd = some sock) : sock.fd = fd := by
  obtain ⟨_,_,made⟩ := Option.bind_eq_some_iff.mp made
  obtain ⟨_,_,made⟩ := Option.bind_eq_some_iff.mp made
  obtain ⟨_,_,rfl⟩ := Option.map_eq_some_iff.mp made
  rfl

theorem accept_books {answer : Option Int} {answers : SocketAnswers} (books : Books s lost fds)
    (ran : step s (.accept answer answers) = some next) :
    Books next ((Label.accept answer answers).stray++lost) ((Label.accept answer answers).wrapped++fds) := by
  obtain ⟨⟨fd,files⟩,taken,body⟩ := Option.bind_eq_some_iff.mp ran
  obtain ⟨rfl,opened⟩ := acquire_accounts books.files taken
  cases fd with
  | none =>
    cases Option.some.inj body
    exact ⟨books.memory,opened⟩
  | some fd =>
    obtain ⟨⟨sock,memory⟩,did,same⟩ := Option.map_eq_some_iff.mp body
    obtain ⟨rfl,after⟩ := socketNew_accounts books.memory did
    have kept : (Label.accept (some fd) answers).wrapped = (answers.made fd).toList.map SocketBlocks.fd := rfl
    have left : (Label.accept (some fd) answers).stray = answers.stray := rfl
    rw [kept,left]
    cases made : answers.made fd with
    | none =>
      rw [made] at same after
      subst same
      have moved := after.reorder (List.perm_append_comm_assoc answers.stray _ lost)
      exact ⟨moved,release_accounts opened⟩
    | some sock =>
      rw [made] at same after
      subst same
      have mine : owned SocketBlocks.all (some sock) = sock.all := List.append_nil _
      have shaped : Accounts memory ((s.sockets++[sock]).flatMap SocketBlocks.all++(answers.stray++lost)) := by
        refine after.reorder ?_
        rw [mine,List.flatMap_append,List.flatMap_singleton,List.append_assoc]
        exact ((List.perm_append_comm_assoc answers.stray _ lost).append_left _).trans (List.perm_append_comm_assoc ..)
      refine ⟨shaped,?_⟩
      rw [Option.toList_some,List.map_singleton,made_fd made]
      exact opened

theorem teardown_books {which : Nat} (books : Books s lost fds) (ran : step s (.teardown which) = some next) : Books next lost fds := by
  obtain ⟨sock,found,rfl⟩ := Option.map_eq_some_iff.mp ran
  have shaped : Accounts s.memory (sock.all++((s.sockets.eraseIdx which).flatMap SocketBlocks.all++lost)) := by
    obtain ⟨bound,rfl⟩ := List.getElem?_eq_some_iff.mp found
    refine books.memory.reorder ?_
    rw [← List.append_assoc,← List.flatMap_cons]
    exact ((List.getElem_cons_eraseIdx_perm bound).symm.flatMap_right _).append_right lost
  constructor
  · dsimp only
    exact socketFree_accounts shaped
  · exact books.files

theorem step_books (books : Books s lost fds) (ran : step s label = some next) :
    Books next (label.stray++lost) (label.wrapped++fds) := by
  cases label with
  | accept answer answers => exact accept_books books ran
  | teardown which => exact teardown_books books ran

theorem exec_books (books : Books s lost fds) (ran : exec step s labels = some last) :
    Books last (labels.flatMap Label.stray++lost) (labels.flatMap Label.wrapped++fds) := by
  induction labels generalizing s lost fds with
  | nil =>
    cases Option.some.inj ran
    exact books
  | cons label rest ih =>
    obtain ⟨next,one,ran⟩ := exec_cons.mp ran
    have after := ih (step_books books one) ran
    refine ⟨after.memory.reorder ?_,after.files.reorder ?_⟩
    · refine List.Perm.append_left _ ?_
      rw [List.flatMap_cons,List.append_assoc]
      exact List.perm_append_comm_assoc ..
    · rw [List.flatMap_cons,List.append_assoc]
      exact List.perm_append_comm_assoc ..

-- The ledger makes a socket exactly when the model of the same calls does.
theorem made_agrees (a : SocketAnswers) (fd : Int) (ev : π) (bufsize : UInt32) :
    (a.made fd).isSome = (Sockets.socketNewFromFd ev a.sock.isSome
      (Streams.streamNew bufsize a.istm.stm.isSome a.istm.header.isSome a.istm.block.isSome)
      (Streams.streamNew bufsize a.ostm.stm.isSome a.ostm.header.isSome a.ostm.block.isSome)).isSome := by
  have stream : ∀ b : StreamAnswers, b.made.isSome =
      (Streams.streamNew bufsize b.stm.isSome b.header.isSome b.block.isSome).isSome := by
    intro b
    obtain ⟨stm,header,block⟩ := b
    cases stm <;> cases header <;> cases block <;> rfl
  unfold SocketAnswers.made Sockets.socketNewFromFd
  cases a.sock with
  | none => rfl
  | some sock =>
    simp only [Option.bind_some,Option.isSome_some,if_true]
    cases imade : a.istm.made with
    | none =>
      have none_opened := stream a.istm
      rw [imade] at none_opened
      rw [Option.not_isSome_iff_eq_none.mp (Bool.eq_false_iff.mp none_opened.symm)]
      rfl
    | some istm =>
      have opened := stream a.istm
      rw [imade] at opened
      obtain ⟨istm,known⟩ := Option.isSome_iff_exists.mp opened.symm
      rw [known,Option.bind_some,Option.bind_some,Option.isSome_map,Option.isSome_map]
      exact stream a.ostm

theorem sockets_accounted (ran : exec step start labels = some last) :
    last.memory.misused = false ∧ last.files.misused = false ∧ last.memory.live.Nodup ∧
    last.memory.live.Perm (last.sockets.flatMap SocketBlocks.all++labels.flatMap Label.stray) ∧
    last.files.live.Perm (labels.flatMap Label.wrapped) := by
  have empty : Books start [] [] := ⟨⟨.nil,List.nodup_nil,rfl⟩,⟨.nil,List.nodup_nil,rfl⟩⟩
  obtain ⟨memory,files⟩ := exec_books empty ran
  rw [List.append_nil] at memory files
  exact ⟨memory.clean,files.clean,memory.live_nodup,memory.exact_held,files.exact_held⟩

end Runs

-- One connection served and torn down, one whose second stream gets no buffer.
def served : List Label :=
  let whole (n : Nat) : StreamAnswers := ⟨some n,some (n+1),some (n+2)⟩
  [.accept (some 5) ⟨some 10,whole 11,whole 14⟩,.teardown 0,.accept (some 6) ⟨some 10,whole 11,⟨some 14,none,none⟩⟩]

theorem served_accounted : ∃ last, exec step start served = some last ∧ last.sockets.isEmpty = true ∧
    last.memory.misused = false ∧ last.memory.live.Perm [13,12,11] ∧ last.files.live.Perm [5] := by
  have seen : (exec step start served).map (fun last => (last.sockets.isEmpty,last.memory.live)) = some (true,[13,12,11]) := by decide
  obtain ⟨last,ran,same⟩ := Option.map_eq_some_iff.mp seen
  simp only [Prod.mk.injEq] at same
  obtain ⟨clean,_,_,_,files⟩ := sockets_accounted ran
  exact ⟨last,ran,same.1,clean,by rw [same.2],files⟩

end EventLib.Ownership
