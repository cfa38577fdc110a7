import EventLib.RecordSplit
import EventLib.LabelledRuns

namespace EventLib.NetTransport
open RecordSplit LabelledRuns

-- The answer of one `read` or `write`: a count, -1 with EINTR, -1 with another errno.
inductive Reply where
  | count (n : Nat)
  | intr
  | fail
deriving DecidableEq

-- The locals of `writen`; `buf` is the message from the current pointer on.
structure Writen where
  buf : List UInt8
  nleft : Nat
  sz : Nat
deriving DecidableEq

-- The locals of `readn`; `stored` is the caller's memory up to the pointer.
structure Readn where
  stored : List UInt8
  nleft : Nat
  sz : Nat
deriving DecidableEq

inductive Turn (φ : Type) where
  | again (frame : φ)
  | done (ret : Int)

-- The loop body of `writen`: a count of 0 is an error too.
def writenTurn (f : Writen) : Reply → Turn Writen
  | .count n => if n = 0 then .done (-1) else .again {f with nleft:=f.nleft-n,buf:=f.buf.drop n}
  | .intr => .again f
  | .fail => .done (-1)

-- The loop body of `readn`: a count of 0 is the end of the file.
def readnTurn (f : Readn) (chunk : List UInt8) : Reply → Turn Readn
  | .count n => if n = 0 then .done ((f.sz-f.nleft : Nat) : Int) else .again {f with nleft:=f.nleft-n,stored:=f.stored++chunk}
  | .intr => .again f
  | .fail => .done (-1)

-- One descriptor with a writer calling `writen` for each message in turn and a
-- reader calling `readn` for each size. `sent` is all that ever entered `fifo`.
structure Pipe where
  fifo : List UInt8
  sent : List UInt8
  closed : Bool
  messages : List (List UInt8)
  writing : Option Writen
  wrote : List Int
  sizes : List Nat
  reading : Option Readn
  got : List (Int × List UInt8)
deriving DecidableEq

def start (messages : List (List UInt8)) (sizes : List Nat) : Pipe := ⟨[],[],false,messages,none,[],sizes,none,[]⟩

inductive Action where
  | writen
  | write (reply : Reply)
  | writenReturn
  | close
  | readn
  | read (reply : Reply)
  | readnReturn
deriving DecidableEq

def moved : Reply → Nat
  | .count n => n
  | _ => 0

def writeStep (s : Pipe) (f : Writen) (reply : Reply) : Option Pipe :=
  if f.nleft = 0 ∨ f.nleft < moved reply then none else
  match writenTurn f reply with
  | .done ret => some {s with writing:=none,wrote:=s.wrote++[ret]}
  | .again f' => some {s with writing:=some f',fifo:=s.fifo++f.buf.take (moved reply),sent:=s.sent++f.buf.take (moved reply)}

-- A reader waits for bytes or for the end of the file.
def readStep (s : Pipe) (f : Readn) (reply : Reply) : Option Pipe :=
  if f.nleft = 0 ∨ f.nleft < moved reply ∨ s.fifo.length < moved reply ∨ reply = .count 0 ∧ ¬ (s.closed ∧ s.fifo = []) then none else
  match readnTurn f (s.fifo.take (moved reply)) reply with
  | .done ret => some {s with reading:=none,got:=s.got++[(ret,f.stored)]}
  | .again f' => some {s with reading:=some f',fifo:=s.fifo.drop (moved reply)}

-- The writer may close, or die, at any point; it takes no step after that.
def step (s : Pipe) : Action → Option Pipe
  | .writen => if s.closed then none else
    match s.writing,s.messages with
    | none,m::rest => some {s with writing:=some ⟨m,m.length,m.length⟩,messages:=rest}
    | _,_ => none
  | .write reply => if s.closed then none else s.writing.bind fun f => writeStep s f reply
  | .writenReturn => if s.closed then none else s.writing.bind fun f =>
      if f.nleft = 0 then some {s with writing:=none,wrote:=s.wrote++[(f.sz : Int)]} else none
  | .close => if s.closed then none else some {s with closed:=true}
  | .readn =>
    match s.reading,s.sizes with
    | none,k::rest => some {s with reading:=some ⟨[],k,k⟩,sizes:=rest}
    | _,_ => none
  | .read reply => s.reading.bind fun f => readStep s f reply
  | .readnReturn => s.reading.bind fun f =>
      if f.nleft = 0 then some {s with reading:=none,got:=s.got++[(((f.sz-f.nleft : Nat) : Int),f.stored)]} else none

-- Neither side meets an error; `intr` is none.
def Clean : Action → Prop
  | .write reply => reply ≠ .fail ∧ reply ≠ .count 0
  | .read reply => reply ≠ .fail
  | _ => True

instance : DecidablePred Clean
  | .write _ => inferInstanceAs (Decidable (_ ∧ _))
  | .read _ => inferInstanceAs (Decidable (_ ≠ _))
  | .writen => isTrue trivial
  | .writenReturn => isTrue trivial
  | .close => isTrue trivial
  | .readn => isTrue trivial
  | .readnReturn => isTrue trivial

def productive : Action → Bool
  | .write .intr => false
  | .read .intr => false
  | _ => true

-- Everything a step can do, with the conditions under which it does it.
inductive Stepped (s : Pipe) : Action → Pipe → Prop where
  | writen : s.closed = false → s.writing = none → s.messages = m::rest →
      Stepped s .writen {s with writing:=some ⟨m,m.length,m.length⟩,messages:=rest}
  | write : s.closed = false → s.writing = some f → n ≠ 0 → n ≤ f.nleft → Stepped s (.write (.count n))
      {s with writing:=some {f with nleft:=f.nleft-n,buf:=f.buf.drop n},fifo:=s.fifo++f.buf.take n,sent:=s.sent++f.buf.take n}
  | writeFailed : s.closed = false → s.writing = some f → reply = .fail ∨ reply = .count 0 →
      Stepped s (.write reply) {s with writing:=none,wrote:=s.wrote++[-1]}
  | writeAgain : Stepped s (.write .intr) s
  | writenReturn : s.closed = false → s.writing = some f → f.nleft = 0 →
      Stepped s .writenReturn {s with writing:=none,wrote:=s.wrote++[(f.sz : Int)]}
  | close : s.closed = false → Stepped s .close {s with closed:=true}
  | readn : s.reading = none → s.sizes = k::rest → Stepped s .readn {s with reading:=some ⟨[],k,k⟩,sizes:=rest}
  | read : s.reading = some f → n ≠ 0 → n ≤ f.nleft → n ≤ s.fifo.length → Stepped s (.read (.count n))
      {s with reading:=some {f with nleft:=f.nleft-n,stored:=f.stored++s.fifo.take n},fifo:=s.fifo.drop n}
  | readEnded : s.reading = some f → s.closed = true → s.fifo = [] →
      Stepped s (.read (.count 0)) {s with reading:=none,got:=s.got++[(((f.sz-f.nleft : Nat) : Int),f.stored)]}
  | readFailed : s.reading = some f → Stepped s (.read .fail) {s with reading:=none,got:=s.got++[(-1,f.stored)]}
  | readAgain : Stepped s (.read .intr) s
  | readnReturn : s.reading = some f → f.nleft = 0 →
      Stepped s .readnReturn {s with reading:=none,got:=s.got++[(((f.sz-f.nleft : Nat) : Int),f.stored)]}

theorem write_stepped {s next : Pipe} {f : Writen} {reply : Reply} (here : s.closed = false) (writing : s.writing = some f)
    (ran : writeStep s f reply = some next) : Stepped s (.write reply) next := by
  obtain ⟨allowed,ran⟩ := Option.ite_none_left_eq_some.mp ran
  cases reply with
  | fail =>
    cases Option.some.inj ran
    exact .writeFailed here writing (Or.inl rfl)
  | intr =>
    have same : next = s := by
      simpa [writenTurn,moved,← writing] using (Option.some.inj ran).symm
    subst same
    exact .writeAgain
  | count n =>
    by_cases zero : n = 0
    · subst zero
      cases Option.some.inj ran
      exact .writeFailed here writing (Or.inr rfl)
    · simp only [writenTurn,zero,if_false,moved] at ran
      cases Option.some.inj ran
      exact .write here writing zero (by simp only [moved] at allowed; omega)

theorem read_stepped {s next : Pipe} {f : Readn} {reply : Reply} (reading : s.reading = some f)
    (ran : readStep s f reply = some next) : Stepped s (.read reply) next := by
  obtain ⟨allowed,ran⟩ := Option.ite_none_left_eq_some.mp ran
  cases reply with
  | fail =>
    cases Option.some.inj ran
    exact .readFailed reading
  | intr =>
    have same : next = s := by
      simpa [readnTurn,moved,← reading] using (Option.some.inj ran).symm
    subst same
    exact .readAgain
  | count n =>
    by_cases zero : n = 0
    · subst zero
      have ended : s.closed = true ∧ s.fifo = [] := by
        by_contra waits
        exact allowed (Or.inr (Or.inr (Or.inr ⟨rfl,waits⟩)))
      cases Option.some.inj ran
      exact .readEnded reading ended.1 ended.2
    · simp only [readnTurn,zero,if_false,moved] at ran
      cases Option.some.inj ran
      simp only [moved] at allowed
      exact .read reading zero (by omega) (by omega)

theorem step_stepped {s next : Pipe} {action : Action} (ran : step s action = some next) : Stepped s action next := by
  cases action with
  | writen =>
    obtain ⟨here,ran⟩ := Option.ite_none_left_eq_some.mp ran
    cases writing : s.writing <;> cases messages : s.messages <;> simp only [writing,messages] at ran
    all_goals cases ran
    exact .writen (by simpa using here) writing messages
  | write reply =>
    obtain ⟨here,ran⟩ := Option.ite_none_left_eq_some.mp ran
    obtain ⟨f,writing,ran⟩ := Option.bind_eq_some_iff.mp ran
    exact write_stepped (by simpa using here) writing ran
  | writenReturn =>
    obtain ⟨here,ran⟩ := Option.ite_none_left_eq_some.mp ran
    obtain ⟨f,writing,ran⟩ := Option.bind_eq_some_iff.mp ran
    obtain ⟨whole,same⟩ := Option.ite_none_right_eq_some.mp ran
    cases Option.some.inj same
    exact .writenReturn (by simpa using here) writing whole
  | close =>
    obtain ⟨here,same⟩ := Option.ite_none_left_eq_some.mp ran
    cases Option.some.inj same
    exact .close (by simpa using here)
  | readn =>
    simp only [step] at ran
    cases reading : s.reading <;> cases sizes : s.sizes <;> simp only [reading,sizes] at ran
    all_goals cases ran
    exact .readn reading sizes
  | read reply =>
    obtain ⟨f,reading,ran⟩ := Option.bind_eq_some_iff.mp ran
    exact read_stepped reading ran
  | readnReturn =>
    obtain ⟨f,reading,ran⟩ := Option.bind_eq_some_iff.mp ran
    obtain ⟨whole,same⟩ := Option.ite_none_right_eq_some.mp ran
    cases Option.some.inj same
    exact .readnReturn reading whole

-- What the writer has behind it: whole messages, and of the current one all but `buf`.
def Writing (messages done : List (List UInt8)) (s : Pipe) : Prop :=
  match s.writing with
  | none => messages = done++s.messages ∧ s.sent = done.flatten
  | some f => ∃ m, messages = done++m::s.messages ∧ f.sz = m.length ∧ f.nleft = f.buf.length ∧ s.sent++f.buf = done.flatten++m

-- What the reader has before it: past the sizes served, the current call's part
-- and then the queue.
def Reading (sizes served : List Nat) (s : Pipe) : Prop :=
  match s.reading with
  | none => sizes = served++s.sizes ∧ s.sent.drop served.sum = s.fifo
  | some f => sizes = served++f.sz::s.sizes ∧ f.stored.length+f.nleft = f.sz ∧ s.sent.drop served.sum = f.stored++s.fifo

def answer (bytes : List UInt8) : Int × List UInt8 := (bytes.length,bytes)

-- Only the end of the file serves a size short, and nothing is sent after it.
structure Sound (messages : List (List UInt8)) (sizes : List Nat) (s : Pipe) : Prop where
  writer : ∃ done, s.wrote = done.map (fun m => (m.length : Int)) ∧ Writing messages done s
  reader : ∃ served, s.got = (pieces served s.sent).map answer ∧ Reading sizes served s ∧
    (s.closed = false → served.sum ≤ s.sent.length)

theorem start_sound (messages : List (List UInt8)) (sizes : List Nat) : Sound messages sizes (start messages sizes) :=
  ⟨⟨[],rfl,rfl,rfl⟩,⟨[],rfl,⟨rfl,rfl⟩,fun _ => Nat.le_refl _⟩⟩

-- A call of `readn` ends with the piece that is its due.
theorem served_next {sent stored fifo : List UInt8} {served : List Nat} {nleft sz : Nat}
    (got : results = (pieces served sent).map answer) (split : stored.length+nleft = sz)
    (ahead : sent.drop served.sum = stored++fifo) (all : nleft = 0 ∨ fifo = []) :
    results++[(((sz-nleft : Nat) : Int),stored)] = (pieces (served++[sz]) sent).map answer ∧
      sent.drop (served++[sz]).sum = fifo := by
  have count : sz-nleft = stored.length := by omega
  have due : (sent.drop served.sum).take sz = stored ∧ (sent.drop served.sum).drop sz = fifo := by
    rw [ahead]
    rcases all with rfl | rfl
    · have whole : sz = stored.length := by omega
      simp [whole]
    · simp
      omega
  rw [got,pieces_append,count]
  constructor
  · simp [pieces,due.1,answer]
  · rw [List.sum_append,List.sum_singleton,← List.drop_drop]
    exact due.2

-- New bytes go behind everything the reader has before it.
theorem sent_ahead {sizes served : List Nat} {s : Pipe} {more : List UInt8} {writing : Option Writen}
    (ahead : Reading sizes served s) (whole : served.sum ≤ s.sent.length) :
    Reading sizes served {s with writing:=writing,fifo:=s.fifo++more,sent:=s.sent++more} := by
  cases reading : s.reading with
  | none =>
    simp only [Reading,reading] at ahead ⊢
    rw [List.drop_append_of_le_length whole,ahead.2]
    exact ⟨ahead.1,rfl⟩
  | some f =>
    simp only [Reading,reading] at ahead ⊢
    rw [List.drop_append_of_le_length whole,ahead.2.2,List.append_assoc]
    exact ⟨ahead.1,ahead.2.1,rfl⟩

theorem step_sound {messages : List (List UInt8)} {sizes : List Nat} {s next : Pipe} {action : Action}
    (sound : Sound messages sizes s) (clean : Clean action) (stepped : Stepped s action next) : Sound messages sizes next := by
  obtain ⟨⟨done,wrote,written⟩,⟨served,got,ahead,whole⟩⟩ := sound
  cases stepped with
  | writen here writing more =>
    simp only [Writing,writing] at written
    refine ⟨⟨done,wrote,_,?_,rfl,rfl,?_⟩,⟨served,got,ahead,whole⟩⟩
    · rw [written.1,more]
    · rw [written.2]
  | @write f n here writing positive within =>
    simp only [Writing,writing] at written
    obtain ⟨m,rest,size,left,split⟩ := written
    refine ⟨⟨done,wrote,m,rest,size,?_,?_⟩,⟨served,?_,sent_ahead ahead (whole here),?_⟩⟩
    · simp [left]
    · rw [List.append_assoc,List.take_append_drop]
      exact split
    · rw [pieces_grow (whole here)]
      exact got
    · intro _
      have before := whole here
      simp only [List.length_append]
      omega
  | writeFailed here writing failed =>
    rcases failed with rfl | rfl
    · exact absurd rfl clean.1
    · exact absurd rfl clean.2
  | writeAgain => exact ⟨⟨done,wrote,written⟩,⟨served,got,ahead,whole⟩⟩
  | @writenReturn f here writing all =>
    simp only [Writing,writing] at written
    obtain ⟨m,rest,size,left,split⟩ := written
    have empty : f.buf = [] := List.length_eq_zero_iff.mp (left.symm.trans all)
    rw [empty,List.append_nil] at split
    refine ⟨⟨done++[m],?_,?_,?_⟩,⟨served,got,ahead,whole⟩⟩
    · simp [wrote,size]
    · simp [rest]
    · simp [split]
  | close here => exact ⟨⟨done,wrote,written⟩,⟨served,got,ahead,fun opened => by cases opened⟩⟩
  | readn reading more =>
    simp only [Reading,reading] at ahead
    refine ⟨⟨done,wrote,written⟩,⟨served,got,⟨?_,?_,?_⟩,whole⟩⟩
    · rw [ahead.1,more]
    · simp
    · exact ahead.2
  | @read f n reading positive within there =>
    simp only [Reading,reading] at ahead
    obtain ⟨rest,split,before⟩ := ahead
    refine ⟨⟨done,wrote,written⟩,⟨served,got,⟨rest,?_,?_⟩,whole⟩⟩
    · simp only [List.length_append,List.length_take]
      omega
    · simp only [List.append_assoc,List.take_append_drop]
      exact before
  | @readEnded f reading closed empty =>
    simp only [Reading,reading] at ahead
    obtain ⟨rest,split,before⟩ := ahead
    obtain ⟨results,after⟩ := served_next got split before (Or.inr empty)
    refine ⟨⟨done,wrote,written⟩,⟨served++[f.sz],results,⟨?_,after⟩,?_⟩⟩
    · simp [rest]
    · intro opened
      exact absurd (closed.symm.trans opened) (by decide)
  | readFailed reading => exact absurd rfl clean
  | readAgain => exact ⟨⟨done,wrote,written⟩,⟨served,got,ahead,whole⟩⟩
  | @readnReturn f reading all =>
    simp only [Reading,reading] at ahead
    obtain ⟨rest,split,before⟩ := ahead
    obtain ⟨results,after⟩ := served_next got split before (Or.inl all)
    refine ⟨⟨done,wrote,written⟩,⟨served++[f.sz],results,⟨?_,after⟩,?_⟩⟩
    · simp [rest]
    · intro opened
      have room := whole opened
      have length := congrArg List.length before
      simp only [List.length_drop,List.length_append] at length
      simp only [List.sum_append,List.sum_singleton]
      omega

theorem run_sound {messages : List (List UInt8)} {sizes : List Nat} {actions : List Action} {last : Pipe}
    (clean : ∀ action ∈ actions, Clean action) (ran : exec step (start messages sizes) actions = some last) :
    Sound messages sizes last := by
  refine exec_guarded ?_ (start_sound messages sizes) (along_of_forall clean) ran
  intro s action next sound clean one
  exact step_sound sound clean (step_stepped one)

-- Calls to come, bytes to move and returns to make, and the one close.
def work (s : Pipe) : Nat :=
  (s.messages.map (·.length+2)).sum+(s.writing.elim 0 (·.nleft+1))+(s.sizes.map (·+2)).sum+(s.reading.elim 0 (·.nleft+1))+
    (if s.closed then 0 else 1)

theorem step_work {s next : Pipe} {action : Action} (stepped : Stepped s action next) :
    work next+(if productive action then 1 else 0) ≤ work s := by
  cases stepped with
  | writen here writing more =>
    simp only [work,productive,writing,more,Option.elim,List.map_cons,List.sum_cons,if_true]
    omega
  | write here writing positive within =>
    simp only [work,productive,writing,Option.elim,if_true]
    omega
  | writeFailed here writing failed =>
    rcases failed with rfl | rfl <;> simp only [work,productive,writing,Option.elim,if_true] <;> omega
  | writeAgain => exact Nat.le_refl _
  | writenReturn here writing all =>
    simp only [work,productive,writing,Option.elim,if_true]
    omega
  | close here => simp [work,productive,here]
  | readn reading more =>
    simp only [work,productive,reading,more,Option.elim,List.map_cons,List.sum_cons,if_true]
    omega
  | read reading positive within there =>
    simp only [work,productive,reading,Option.elim,if_true]
    omega
  | readEnded reading closed empty =>
    simp only [work,productive,reading,Option.elim,if_true]
    omega
  | readFailed reading =>
    simp only [work,productive,reading,Option.elim,if_true]
    omega
  | readAgain => exact Nat.le_refl _
  | readnReturn reading all =>
    simp only [work,productive,reading,Option.elim,if_true]
    omega

theorem run_work {s last : Pipe} {actions : List Action} (ran : exec step s actions = some last) :
    actions.countP productive+work last ≤ work s := by
  induction actions generalizing s with
  | nil =>
    cases Option.some.inj ran
    simp
  | cons action rest ih =>
    obtain ⟨next,one,tail⟩ := exec_cons.mp ran
    have first := step_work (step_stepped one)
    have later := ih tail
    rw [List.countP_cons]
    omega

theorem Sound.sent_prefix {messages : List (List UInt8)} {sizes : List Nat} {s : Pipe} (sound : Sound messages sizes s) :
    ∃ rest, messages.flatten = s.sent++rest := by
  obtain ⟨done,_,written⟩ := sound.writer
  cases writing : s.writing with
  | none =>
    simp only [Writing,writing] at written
    exact ⟨s.messages.flatten,by simp [written.1,written.2]⟩
  | some f =>
    simp only [Writing,writing] at written
    obtain ⟨m,rest,_,_,split⟩ := written
    refine ⟨f.buf++s.messages.flatten,?_⟩
    rw [← List.append_assoc,split,rest]
    simp

theorem Sound.wrote_exact {messages : List (List UInt8)} {sizes : List Nat} {s : Pipe} (sound : Sound messages sizes s) :
    s.wrote = (messages.take s.wrote.length).map fun m => (m.length : Int) := by
  obtain ⟨done,wrote,written⟩ := sound.writer
  have front : ∃ rest, messages = done++rest := by
    cases writing : s.writing with
    | none =>
      simp only [Writing,writing] at written
      exact ⟨_,written.1⟩
    | some f =>
      simp only [Writing,writing] at written
      obtain ⟨m,rest,_⟩ := written
      exact ⟨_,rest⟩
  obtain ⟨rest,rfl⟩ := front
  simp [wrote]

-- Between its calls the writer has sent the messages it returned for, and nothing else.
theorem Sound.sent_whole {messages : List (List UInt8)} {sizes : List Nat} {s : Pipe} (sound : Sound messages sizes s)
    (idle : s.writing = none) : s.sent = (messages.take s.wrote.length).flatten := by
  obtain ⟨done,wrote,written⟩ := sound.writer
  simp only [Writing,idle] at written
  rw [wrote,List.length_map,written.1,List.take_left]
  exact written.2

theorem Sound.sent_partly {messages : List (List UInt8)} {sizes : List Nat} {s : Pipe} {f : Writen} (sound : Sound messages sizes s)
    (writing : s.writing = some f) : s.sent++f.buf = (messages.take (s.wrote.length+1)).flatten ∧ f.nleft = f.buf.length := by
  obtain ⟨done,wrote,written⟩ := sound.writer
  simp only [Writing,writing] at written
  obtain ⟨m,rest,_,left,split⟩ := written
  have front : messages.take (done.length+1) = done++[m] := by
    rw [rest,List.take_length_add_append]
    rfl
  rw [wrote,List.length_map,front,split]
  exact ⟨by simp,left⟩

theorem Reading.front {sizes served : List Nat} {s : Pipe} (ahead : Reading sizes served s) : ∃ rest, sizes = served++rest := by
  cases reading : s.reading with
  | none =>
    simp only [Reading,reading] at ahead
    exact ⟨_,ahead.1⟩
  | some f =>
    simp only [Reading,reading] at ahead
    exact ⟨_,ahead.1⟩

theorem Sound.got_exact {messages : List (List UInt8)} {sizes : List Nat} {s : Pipe} (sound : Sound messages sizes s) :
    s.got = ((pieces sizes s.sent).take s.got.length).map answer := by
  obtain ⟨served,got,ahead,_⟩ := sound.reader
  obtain ⟨rest,rfl⟩ := ahead.front
  simp [got,pieces_append,pieces_length]

-- Before the writer closes every piece is whole, so it is the message itself.
theorem Sound.got_messages {messages : List (List UInt8)} {s : Pipe} (sound : Sound messages (messages.map List.length) s)
    (opened : s.closed = false) : s.got = (messages.take s.got.length).map answer := by
  obtain ⟨rest,all⟩ := sound.sent_prefix
  obtain ⟨served,got,ahead,whole⟩ := sound.reader
  obtain ⟨later,sizes⟩ := ahead.front
  have sizes_served : served = (messages.take served.length).map List.length := by
    rw [List.map_take,sizes,List.take_left]
  have count : s.got.length = served.length := by simp [got,pieces_length]
  have grown : pieces served (s.sent++rest) = pieces served s.sent := pieces_grow (whole opened)
  have parts : messages.flatten = (messages.take served.length).flatten++(messages.drop served.length).flatten := by
    rw [← List.flatten_append,List.take_append_drop]
  have due : pieces served s.sent = messages.take served.length := by
    have flat : pieces ((messages.take served.length).map List.length) messages.flatten = messages.take served.length := by
      rw [parts]
      exact pieces_flatten _
    rw [← grown,← all]
    rw [← sizes_served] at flat
    exact flat
  rw [count,← due]
  exact got

-- One of the two sides can go on, and not only by closing.
def Moves (s : Pipe) : Prop := ∃ action, productive action = true ∧ action ≠ .close ∧ Clean action ∧ (step s action).isSome

-- With the bytes of its call in the queue, or the end of the file, a reader moves.
theorem reader_moves {s : Pipe} {f : Readn} (reading : s.reading = some f)
    (there : f.nleft = 0 ∨ s.fifo ≠ [] ∨ s.closed = true) : Moves s := by
  by_cases all : f.nleft = 0
  · exact ⟨.readnReturn,rfl,by decide,trivial,by simp [step,reading,all]⟩
  · by_cases empty : s.fifo = []
    · have closed : s.closed = true := by
        rcases there with none_left | queued | closed
        · exact absurd none_left all
        · exact absurd empty queued
        · exact closed
      exact ⟨.read (.count 0),rfl,by decide,by simp [Clean],by simp [step,reading,readStep,all,moved,closed,empty,readnTurn]⟩
    · have some_queued : 0 < s.fifo.length := List.length_pos_iff.mpr empty
      have enough : ¬ s.fifo.length < 1 := by omega
      exact ⟨.read (.count 1),rfl,by decide,by simp [Clean],by simp [step,reading,readStep,all,moved,enough,readnTurn]⟩

theorem writer_moves {s : Pipe} {f : Writen} (here : s.closed = false) (writing : s.writing = some f) : Moves s := by
  by_cases all : f.nleft = 0
  · exact ⟨.writenReturn,rfl,by decide,trivial,by simp [step,here,writing,all]⟩
  · refine ⟨.write (.count f.nleft),rfl,by simp,⟨by simp,by simp [all]⟩,?_⟩
    simp [step,here,writing,writeStep,all,moved,writenTurn]

-- Once the writer is done the queue holds what the reader's call still misses.
theorem Sound.rest_queued {messages : List (List UInt8)} {s : Pipe} {f : Readn}
    (sound : Sound messages (messages.map List.length) s) (idle : s.writing = none) (finished : s.messages = [])
    (opened : s.closed = false) (reading : s.reading = some f) : f.nleft ≤ s.fifo.length := by
  obtain ⟨done,_,written⟩ := sound.writer
  obtain ⟨served,_,ahead,whole⟩ := sound.reader
  simp only [Writing,idle,finished,List.append_nil] at written
  simp only [Reading,reading] at ahead
  obtain ⟨rest,split,before⟩ := ahead
  have total : s.sent.length = (messages.map List.length).sum := by
    rw [written.2,written.1,List.length_flatten]
  have room := whole opened
  have length := congrArg List.length before
  rw [rest] at total
  simp only [List.length_drop,List.length_append,List.sum_append,List.sum_cons] at length total
  omega

theorem reader_progress {s : Pipe} (there : ∀ f, s.reading = some f → f.nleft = 0 ∨ s.fifo ≠ [] ∨ s.closed = true) :
    s.sizes = [] ∧ s.reading = none ∨ Moves s := by
  cases reading : s.reading with
  | some f => exact Or.inr (reader_moves reading (there f reading))
  | none =>
    cases sizes : s.sizes with
    | nil => exact Or.inl ⟨rfl,rfl⟩
    | cons k rest => exact Or.inr ⟨.readn,rfl,by decide,trivial,by simp [step,reading,sizes]⟩

-- Every call has returned; a writer that closed makes no more of them.
def Finished (s : Pipe) : Prop := (s.closed = false → s.messages = [] ∧ s.writing = none) ∧ s.sizes = [] ∧ s.reading = none

theorem Sound.progress {messages : List (List UInt8)} {s : Pipe} (sound : Sound messages (messages.map List.length) s) :
    Finished s ∨ Moves s := by
  cases here : s.closed with
  | true =>
    rcases reader_progress (fun _ _ => Or.inr (Or.inr here)) with served | moves
    · exact Or.inl ⟨fun opened => absurd (here.symm.trans opened) (by decide),served⟩
    · exact Or.inr moves
  | false =>
    cases writing : s.writing with
    | some f => exact Or.inr (writer_moves here writing)
    | none =>
      cases messages_left : s.messages with
      | cons m rest => exact Or.inr ⟨.writen,rfl,by decide,trivial,by simp [step,here,writing,messages_left]⟩
      | nil =>
        have there : ∀ f, s.reading = some f → f.nleft = 0 ∨ s.fifo ≠ [] ∨ s.closed = true := by
          intro f reading
          have queued := sound.rest_queued writing messages_left here reading
          by_cases empty : s.fifo = []
          · simp [empty] at queued
            exact Or.inl queued
          · exact Or.inr (Or.inl empty)
        rcases reader_progress there with served | moves
        · exact Or.inl ⟨fun _ => ⟨messages_left,writing⟩,served⟩
        · exact Or.inr moves

theorem Sound.finished_counts {messages : List (List UInt8)} {sizes : List Nat} {s : Pipe} (sound : Sound messages sizes s)
    (finished : Finished s) : s.got.length = sizes.length ∧ (s.closed = false → s.wrote.length = messages.length) := by
  obtain ⟨done,wrote,written⟩ := sound.writer
  obtain ⟨served,got,ahead,_⟩ := sound.reader
  constructor
  · simp only [Reading,finished.2.2,finished.2.1,List.append_nil] at ahead
    simp [got,pieces_length,ahead.1]
  · intro opened
    obtain ⟨none_left,idle⟩ := finished.1 opened
    simp only [Writing,idle,none_left,List.append_nil] at written
    simp [wrote,written.1]

-- What a run without hard errors has come to. `pieces` cuts what was sent into
-- the lengths asked for: past an early end the remaining bytes, then nothing.
structure Transported (messages : List (List UInt8)) (actions : List Action) (last : Pipe) : Prop where
  wrote : last.wrote = (messages.take last.wrote.length).map fun m => (m.length : Int)
  got : last.closed = false → last.got = (messages.take last.got.length).map answer
  sent : ∃ rest, messages.flatten = last.sent++rest
  sentWhole : last.writing = none → last.sent = (messages.take last.wrote.length).flatten
  sentPartly : ∀ f, last.writing = some f →
    last.sent++f.buf = (messages.take (last.wrote.length+1)).flatten ∧ f.nleft = f.buf.length
  remained : last.got = ((pieces (messages.map List.length) last.sent).take last.got.length).map answer
  progress : Finished last ∨ Moves last
  bounded : actions.countP productive ≤ work (start messages (messages.map List.length))
  finished : Finished last → last.got.length = messages.length ∧ (last.closed = false → last.wrote.length = messages.length)
  writeError : ∀ after, step last (.write .fail) = some after → after.wrote = last.wrote++[-1]
  readError : ∀ after, step last (.read .fail) = some after → ∃ stored, after.got = last.got++[(-1,stored)]
  writeFails : ∀ f, last.closed = false → last.writing = some f → f.nleft ≠ 0 → (step last (.write .fail)).isSome
  readFails : ∀ f, last.reading = some f → f.nleft ≠ 0 → (step last (.read .fail)).isSome

theorem messages_transported {messages : List (List UInt8)} {actions : List Action} {last : Pipe}
    (clean : ∀ action ∈ actions, Clean action) (ran : exec step (start messages (messages.map List.length)) actions = some last) :
    Transported messages actions last := by
  have sound := run_sound clean ran
  refine ⟨sound.wrote_exact,sound.got_messages,sound.sent_prefix,sound.sent_whole,fun f => sound.sent_partly,sound.got_exact,
    sound.progress,?_,?_,?_,?_,?_,?_⟩
  · have bound := run_work ran
    omega
  · intro finished
    simpa using sound.finished_counts finished
  · intro after failed
    cases step_stepped failed with
    | writeFailed => rfl
  · intro after failed
    cases step_stepped failed with
    | readFailed reading => exact ⟨_,rfl⟩
  · intro f here writing unfinished
    simp [step,here,writing,writeStep,unfinished,moved,writenTurn]
  · intro f reading unfinished
    simp [step,reading,readStep,unfinished,moved,readnTurn]

-- `ab` and `c`: the first in two writes with a signal between, read back in
-- pieces of one and one and one byte.
def fragmented : List Action :=
  [.writen,.readn,.write (.count 1),.write .intr,.read (.count 1),.write (.count 1),.writenReturn,.writen,.read .intr,
    .read (.count 1),.readnReturn,.write (.count 1),.writenReturn,.readn,.read (.count 1),.readnReturn]

theorem fragmented_transported : (∀ action ∈ fragmented, Clean action) ∧
    ∃ last, exec step (start [[97,98],[99]] [2,1]) fragmented = some last ∧ Transported [[97,98],[99]] fragmented last ∧
      last.wrote = [2,1] ∧ last.got = [(2,[97,98]),(1,[99])] := by
  have clean : ∀ action ∈ fragmented, Clean action := by decide
  obtain ⟨last,ran,results⟩ : ∃ last, exec step (start [[97,98],[99]] [2,1]) fragmented = some last ∧
      (last.wrote = [2,1] ∧ last.got = [(2,[97,98]),(1,[99])]) := ⟨_,rfl,by decide⟩
  exact ⟨clean,last,ran,messages_transported clean ran,results⟩

-- The writer is gone after one byte of `abc`: the call that wants three returns it.
example : (exec step (start [[97,98,99]] [3])
    [.writen,.write (.count 1),.close,.readn,.read (.count 1),.read (.count 0)]).map Pipe.got = some [(1,[97])] := by decide

end EventLib.NetTransport
