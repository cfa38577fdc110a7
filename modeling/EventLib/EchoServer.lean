import EventLib.SocketReceive
import EventLib.BufferVprintf

namespace EventLib.EchoServer
open ByteBlock RecordSplit ByteBuffer BufferVprintf Events Epoll Streams StreamInput Sockets LabelledRuns EdgeTriggered Errnos
open SocketReceive (Readiness events_mask dispatch_read dispatch_error)

-- Neither call takes the stream's lock.
def streamVprintf (stm : Stream) (passes : List Pass) : Option (UInt32 × Stream) :=
  (bufferVprintf stm.buf passes).bind fun
    | .running _ => none
    | .returned ret b => some (ret,{stm with buf:=b})

def streamPrintf (stm : Stream) (passes : List Pass) : Option (UInt32 × Stream) := streamVprintf stm passes

def crlf : List UInt8 := [13,10]

-- What `%s` prints: up to the first NUL, which has to lie in the block.
def cString (block : List UInt8) (pos : Nat) : Option (List UInt8) :=
  if (0 : UInt8) ∈ block.drop pos then some ((block.drop pos).takeWhile (· ≠ 0)) else none

theorem minus_one_error : -2^31 ≤ (-1 : Int) ∧ (-1 : Int) < 0 := by decide

-- A text whose length is no int makes `vsnprintf` fail.
def formatted (text left : List UInt8) : Formatted :=
  if short : text.length < 2^31 then .text text short else .error (-1) minus_one_error left

-- `later` are further passes of the loop in `buffer_vprintf`: they find `ap`
-- consumed by the first one, so what they format is not the callback's doing.
structure Reaction where
  eof : Bool
  script : List Answer
  grants : Grant × Grant
  left : List UInt8
  grant : Grant
  later : List Pass
  reply : List Answer

-- `queue` is the kernel's receive queue of the descriptor, `arrived` all it
-- ever held and `lines` the records answered, oldest first.
structure Connection (π : Type) where
  ev : Event π
  sock : Socket π
  world : World
  queue : List UInt8
  arrived : List UInt8
  lines : List (List UInt8)
  closed : Bool

variable {π : Type}

-- The branch of `ecprocessor` that has a line, `istm` being the input after the
-- yield. The byte cleared lies before the unread bytes of the buffer.
def answerLine (c : Connection π) (r : Reaction) (istm : Stream) (pos len : UInt32) : Option (Connection π) :=
  (load istm.buf.buf pos.toNat len.toNat).bind fun record =>
  (store istm.buf.buf (pos.toNat+(len-2).toNat) [0]).bind fun block =>
  (cString block pos.toNat).bind fun text =>
  (streamPrintf c.sock.ostm (⟨formatted (text++crlf) r.left,r.grant⟩::r.later)).bind fun printed =>
  (streamFlush printed.2 c.world r.reply).map fun out =>
    {c with
      sock:={c.sock with istm:={istm with buf:={istm.buf with buf:=block}},ostm:=out.stm}
      world:=out.world
      lines:=c.lines++[record]}

-- What goes to the standard output is left out; the teardown is `closed`.
def ecprocessor (c : Connection π) (r : Reaction) : Option (Connection π) :=
  if c.ev.mask &&& (EVMASK_ERROR ||| EVMASK_TIME) ≠ 0 then some {c with closed:=true} else
  (streamYield c.sock.istm crlf 2).bind fun
    | (none,istm) => some {c with sock:={c.sock with istm:=istm}}
    | (some (pos,len),istm) =>
      if 0 < len then answerLine c r istm pos len else some {c with sock:={c.sock with istm:=istm}}

def supply (queue : List UInt8) (eof : Bool) : Supply :=
  if queue = [] ∧ eof = false then .fail EAGAIN else .give queue

def settle (c : Connection π) (d : Dispatched π) : Connection π :=
  {c with ev:={c.ev with mask:=d.mask},sock:=d.sock,world:=d.world,queue:=c.queue.drop d.received.length}

def echoing : Device (Connection π) (List UInt8) Readiness Reaction where
  arrive c bytes := {c with queue:=c.queue++bytes,arrived:=c.arrived++bytes}
  report c readiness := if c.closed then none else some {c with ev:=eventpollDeliver c.ev readiness.events}
  handle c r :=
    (sockDispatch c.ev.mask c.sock c.world r.script (supply c.queue r.eof) r.grants).bind fun d => ecprocessor (settle c d) r

def start (ev : Event π) (address : π) (istm ostm : Stream) (errno : Int) : State (Connection π) :=
  ⟨⟨ev,⟨address,1,istm,ostm⟩,⟨[],errno⟩,[],[],[],false⟩,false,true⟩

def echo (record : List UInt8) : List UInt8 := (record.take (record.length-2)).takeWhile (· ≠ 0) ++ crlf

-- What is queued fits the free space of the input, and the answer with its
-- terminator that of the output.
def Roomy (s : State (Connection π)) : Action (List UInt8) Readiness Reaction → Prop
  | .handle _ => s.work.queue.length ≤ (bufferSpace s.work.sock.istm.buf).toNat ∧
      ∀ i ∈ firstMatch crlf (unread s.work.sock.istm.buf ++ s.work.queue),
        (echo ((unread s.work.sock.istm.buf ++ s.work.queue).take (i+2))).length < (bufferSpace s.work.sock.ostm.buf).toNat
  | _ => True

instance (s : State (Connection π)) : ∀ action, Decidable (Roomy s action)
  | .handle _ => inferInstanceAs (Decidable (_ ∧ _))
  | .arrive _ => isTrue trivial
  | .report _ => isTrue trivial

structure Answering (c : Connection π) : Prop where
  input : Valid c.sock.istm.buf
  inputSmall : c.sock.istm.buf.size.toNat ≤ 2^13
  output : Valid c.sock.ostm.buf
  outputSmall : c.sock.ostm.buf.size.toNat ≤ 2^13
  each : ∀ record ∈ c.lines, EndsAtFirst crlf record
  whole : c.lines.flatten ++ (unread c.sock.istm.buf ++ c.queue) = c.arrived
  sent : c.world.delivered ++ unread c.sock.ostm.buf = c.lines.flatMap echo

section Line
variable {b : Buffer} {i : Nat}

theorem yield_place {pos len : UInt32} {c : Buffer} (ran : bufferYield b crlf 2 = some (some (pos,len),c)) :
    pos = b.rpos ∧ c = advance b len := by
  simp only [bufferYield,Option.bind_eq_bind,Option.bind_eq_some_iff] at ran
  obtain ⟨needle,_,hay,_,ran⟩ := ran
  split at ran
  · cases ran
  · cases Option.some.inj ran
    exact ⟨rfl,rfl⟩

-- A record handed out is dead memory of the buffer: a store into it leaves
-- the unread bytes alone.
theorem advance_scribbled {len : UInt32} {offset : Nat} {items : List UInt8} (valid : Valid b)
    (within : len.toNat ≤ (unread b).length) (inside : offset+items.length ≤ b.rpos.toNat+len.toNat) :
    Valid {advance b len with buf:=put b.buf offset items} ∧
      unread {advance b len with buf:=put b.buf offset items} = unread (advance b len) := by
  have room := valid.room
  have block := valid.block
  have ordered := valid.ordered
  rw [valid.unread_length] at within
  have bound : offset+items.length ≤ b.buf.length := by omega
  obtain ⟨avalid,_⟩ := advance_spec valid (by rw [valid.unread_length]; exact within)
  refine ⟨⟨?_,avalid.room,avalid.order⟩,?_⟩
  · show (put b.buf offset items).length = (advance b len).size.toNat
    rw [put_length bound,(advance_same b len).2,block]
  · have limit := b.wpos.toNat_lt
    have sum : (b.rpos+len).toNat = b.rpos.toNat+len.toNat := sum_exact (by omega)
    unfold advance
    split
    · exact slice_zero.trans slice_zero.symm
    · exact slice_put_past (by show offset+items.length ≤ (b.rpos+len).toNat; omega) bound

theorem takeWhile_cut (text rest : List UInt8) : (text++0::rest).takeWhile (· ≠ 0) = text.takeWhile (· ≠ 0) := by
  induction text with
  | nil => rfl
  | cons x text ih =>
    simp only [List.cons_append,List.takeWhile_cons,ih]

theorem cString_stops {block : List UInt8} {pos n : Nat} (bound : pos+n+1 ≤ block.length) :
    cString (put block (pos+n) [0]) pos = some ((slice block pos n).takeWhile (· ≠ 0)) := by
  have inside : pos+n+([0] : List UInt8).length ≤ block.length := bound
  have tail : (put block (pos+n) [0]).drop pos = slice block pos n ++ 0::block.drop (pos+n+1) := by
    rw [drop_put (Nat.le_add_right pos n) inside,Nat.add_sub_cancel_left]
    rfl
  have ends : (0 : UInt8) ∈ slice block pos n ++ 0::block.drop (pos+n+1) := List.mem_append_right _ List.mem_cons_self
  rw [cString,tail,if_pos ends,takeWhile_cut]

end Line

section Reply
variable {stm : Stream} {text left : List UInt8} {grant : Grant} {later : List Pass}

-- With room for the terminator one pass is enough, whatever would come later.
theorem printf_appends (valid : Valid stm.buf) (some_text : text ≠ []) (short : text.length < 2^31)
    (room : text.length < (bufferSpace stm.buf).toNat) :
    ∃ ret b, streamPrintf stm (⟨formatted text left,grant⟩::later) = some (ret,{stm with buf:=b}) ∧ Valid b ∧
      b.size = stm.buf.size ∧ unread b = unread stm.buf ++ text := by
  obtain ⟨b,turn,bvalid,view⟩ := text_fits grant short valid some_text (Nat.le_of_lt room)
  rw [(printed_exact_iff some_text (Nat.le_of_lt room)).mpr (Or.inl room)] at view
  have first : formatted text left = .text text short := dif_pos short
  refine ⟨UInt32.ofInt text.length,b,?_,bvalid,returned_size turn,view⟩
  rw [streamPrintf,streamVprintf,first,vprintf_returned turn]
  rfl

end Reply

section Rounds
variable {c next : Connection π} {r : Reaction}

theorem echo_length (record : List UInt8) : 2 ≤ (echo record).length := by
  rw [echo,List.length_append]
  exact Nat.le_add_left ..

theorem echo_take {bytes : List UInt8} {i : Nat} (within : i+2 ≤ bytes.length) :
    echo (bytes.take (i+2)) = (bytes.take i).takeWhile (· ≠ 0) ++ crlf := by
  have length : (bytes.take (i+2)).length = i+2 := List.length_take_of_le within
  rw [echo,length,List.take_take,Nat.add_sub_cancel,Nat.min_eq_left (Nat.le_add_right i 2)]

-- The record, and the text `%s` finds in its place once the line's end is struck.
theorem answerLine_inversion {i : Nat} {len : UInt32} (valid : Valid c.sock.istm.buf)
    (within : i+2 ≤ (unread c.sock.istm.buf).length) (length : len.toNat = i+2)
    (ran : answerLine c r {c.sock.istm with buf:=advance c.sock.istm.buf len} c.sock.istm.buf.rpos len = some next) :
    ∃ record ret ostm out, record = (unread c.sock.istm.buf).take (i+2) ∧
      streamPrintf c.sock.ostm (⟨formatted (echo record) r.left,r.grant⟩::r.later) = some (ret,ostm) ∧
      streamFlush ostm c.world r.reply = some out ∧
      next = {c with
        sock:={c.sock with
          istm:={c.sock.istm with buf:={advance c.sock.istm.buf len with
            buf:=put c.sock.istm.buf.buf (c.sock.istm.buf.rpos.toNat+i) [0]}}
          ostm:=out.stm}
        world:=out.world
        lines:=c.lines++[record]} := by
  have block := valid.block
  have fits := valid.room
  have ordered := valid.ordered
  have unreadLength := valid.unread_length
  have two : (len-2).toNat = i := by
    rw [difference_exact (by rw [length]; exact Nat.le_add_left 2 i),length]
    rfl
  have same := (advance_same c.sock.istm.buf len).1
  obtain ⟨record,loaded,ran⟩ := Option.bind_eq_some_iff.mp ran
  obtain ⟨struck,stored,ran⟩ := Option.bind_eq_some_iff.mp ran
  obtain ⟨text,read,ran⟩ := Option.bind_eq_some_iff.mp ran
  obtain ⟨⟨ret,ostm⟩,printed,ran⟩ := Option.bind_eq_some_iff.mp ran
  obtain ⟨out,flushed,rfl⟩ := Option.map_eq_some_iff.mp ran
  dsimp only at loaded stored read printed flushed
  rw [same,two] at stored
  obtain ⟨inside,rfl⟩ := store_inversion stored
  rw [same,length,load_some (by omega)] at loaded
  have whole : (unread c.sock.istm.buf).take (i+2) = record := by
    rw [unread,slice_take (by omega)]
    exact Option.some.inj loaded
  rw [cString_stops inside] at read
  have answer : text++crlf = echo record := by
    rw [← whole,echo_take within,unread,slice_take (by omega),Option.some.inj read]
  rw [answer] at printed
  exact ⟨record,ret,ostm,out,whole.symm,printed,flushed,rfl⟩

-- An answer with room for it goes behind what is still to be sent.
theorem reply_sent {record : List UInt8} {stm ostm : Stream} {w : World} {left : List UInt8} {grant : Grant} {later : List Pass}
    {reply : List Answer} {ret : UInt32} {out : Outcome} (valid : Valid stm.buf) (small : stm.buf.size.toNat ≤ 2^13)
    (room : (echo record).length < (bufferSpace stm.buf).toNat)
    (printed : streamPrintf stm (⟨formatted (echo record) left,grant⟩::later) = some (ret,ostm))
    (flushed : streamFlush ostm w reply = some out) :
    Valid out.stm.buf ∧ out.stm.buf.size = stm.buf.size ∧
      out.world.delivered ++ unread out.stm.buf = w.delivered ++ unread stm.buf ++ echo record := by
  have space := valid.space_exact
  have some_text : echo record ≠ [] := by
    intro empty
    have longer := echo_length record
    rw [empty] at longer
    exact absurd longer (by decide)
  obtain ⟨_,b,did,bvalid,bsize,view⟩ := printf_appends valid some_text (by omega) room
  cases Option.some.inj (did.symm.trans printed)
  obtain ⟨ovalid,osize,k,sent,rest⟩ := flush_spec bvalid (by show b.size.toNat+1 < 2^32; rw [bsize]; omega) flushed
  refine ⟨ovalid,osize.trans bsize,?_⟩
  rw [sent,rest,List.append_assoc,List.take_append_drop,view,← List.append_assoc]

-- A line in the input: it is handed out, struck and printed.
theorem line_answering {i : Nat} {pos len : UInt32} (sound : Answering c) (found : firstMatch crlf (unread c.sock.istm.buf) = some i)
    (place : pos = c.sock.istm.buf.rpos) (length : len.toNat = i+2)
    (room : (echo ((unread c.sock.istm.buf).take (i+2))).length < (bufferSpace c.sock.ostm.buf).toNat)
    (ran : answerLine c r {c.sock.istm with buf:=advance c.sock.istm.buf len} pos len = some next) : Answering next := by
  have within : i+2 ≤ (unread c.sock.istm.buf).length := firstMatch_bound found
  subst place
  obtain ⟨record,ret,ostm,out,whole,printed,flushed,rfl⟩ := answerLine_inversion sound.input within length ran
  rw [← whole] at room
  obtain ⟨ovalid,osize,sent⟩ := reply_sent sound.output sound.outputSmall room printed flushed
  have consumed : len.toNat ≤ (unread c.sock.istm.buf).length := by rw [length]; exact within
  have before : c.sock.istm.buf.rpos.toNat+i+([0] : List UInt8).length ≤ c.sock.istm.buf.rpos.toNat+len.toNat := by
    rw [length]
    exact Nat.le_succ _
  obtain ⟨ivalid,iview⟩ := advance_scribbled sound.input consumed before
  have kept := (advance_spec sound.input consumed).2
  rw [length] at kept
  refine ⟨ivalid,?_,ovalid,?_,?_,?_,?_⟩
  · show (advance c.sock.istm.buf len).size.toNat ≤ 2^13
    rw [(advance_same _ _).2]
    exact sound.inputSmall
  · rw [osize]
    exact sound.outputSmall
  · intro one member
    rcases List.mem_append.mp member with old | new
    · exact sound.each one old
    · rw [List.mem_singleton.mp new,whole]
      exact endsAtFirst_take found
  · show (c.lines++[record]).flatten ++ (unread {advance c.sock.istm.buf len with buf:=_} ++ c.queue) = c.arrived
    have cut : record ++ (unread c.sock.istm.buf).drop (i+2) = unread c.sock.istm.buf := by rw [whole,List.take_append_drop]
    rw [iview,kept,List.flatten_append,List.flatten_singleton,List.append_assoc,← List.append_assoc record,cut]
    exact sound.whole
  · show out.world.delivered ++ unread out.stm.buf = (c.lines++[record]).flatMap echo
    rw [sent,sound.sent,List.flatMap_append,List.flatMap_singleton]

-- The callback on a sound connection without an error: nothing, or one line
-- moved from the input to the output.
theorem answer_answering (sound : Answering c) (clean : c.ev.mask &&& (EVMASK_ERROR ||| EVMASK_TIME) = 0)
    (room : ∀ i ∈ firstMatch crlf (unread c.sock.istm.buf),
      (echo ((unread c.sock.istm.buf).take (i+2))).length < (bufferSpace c.sock.ostm.buf).toNat)
    (ran : ecprocessor c r = some next) : Answering next := by
  rw [ecprocessor,if_neg (fun bad => bad clean)] at ran
  obtain ⟨⟨got,istm⟩,yielded,ran⟩ := Option.bind_eq_some_iff.mp ran
  obtain ⟨⟨got',b⟩,called,same⟩ := Option.map_eq_some_iff.mp yielded
  cases same
  have two : crlf.length = (2 : UInt32).toNat := rfl
  obtain ⟨_,_,spec,_,_,outcome⟩ := bufferYield_spec sound.input two
  cases Option.some.inj (called.symm.trans spec)
  rcases outcome with ⟨_,rfl,rfl⟩ | ⟨i,pos,len,found,rfl,length,_,_⟩
  · cases Option.some.inj ran
    exact sound
  · obtain ⟨place,rfl⟩ := yield_place called
    have positive : 0 < len := UInt32.lt_iff_toNat_lt.mpr (by rw [length]; exact Nat.succ_pos _)
    dsimp only at ran
    rw [if_pos positive] at ran
    exact line_answering sound found place length (room i found) ran

theorem error_answering (sound : Answering c) (bad : c.ev.mask &&& (EVMASK_ERROR ||| EVMASK_TIME) ≠ 0)
    (ran : ecprocessor c r = some next) : Answering next := by
  rw [ecprocessor,if_pos bad] at ran
  cases Option.some.inj ran
  exact ⟨sound.input,sound.inputSmall,sound.output,sound.outputSmall,sound.each,sound.whole,sound.sent⟩

theorem supply_taken {queue : List UInt8} {capacity : Nat} (fits : queue.length ≤ capacity) (eof : Bool) :
    taken capacity (supply queue eof) = queue := by
  unfold supply
  split
  · rename_i empty
    rw [empty.1]
    rfl
  · exact List.take_of_length_le fits

-- A fill with room for the queue moves all of it into the input buffer.
theorem fill_answering {stm : Stream} {out : Intake} (sound : Answering c) (same : stm.buf = c.sock.istm.buf)
    (fits : c.queue.length ≤ (bufferSpace c.sock.istm.buf).toNat)
    (filled : streamFill stm c.world (supply c.queue r.eof) r.grants = some out) :
    out.received = c.queue ∧ Valid out.stm.buf ∧ out.stm.buf.size = c.sock.istm.buf.size ∧
      out.world.delivered = c.world.delivered ∧ unread out.stm.buf = unread c.sock.istm.buf ++ c.queue := by
  have small := sound.inputSmall
  have space := sound.input.space_exact
  have valid := sound.input
  rw [← same] at fits small space valid ⊢
  have capacity : fillCapacity stm.buf = (bufferSpace stm.buf).toNat+65535 := rfl
  have all : taken (fillCapacity stm.buf) (supply c.queue r.eof) = c.queue := supply_taken (by omega) r.eof
  have received : out.received = c.queue := (fill_received filled).trans all
  obtain ⟨ovalid,size,delivered,outcome⟩ := fill_spec valid (by rw [all]; exact fits) filled
  refine ⟨received,ovalid,size,delivered,?_⟩
  rcases outcome with ⟨_,view⟩ | ⟨failed,view⟩
  · rw [view,received]
  · have nothing : c.queue = [] := by
      by_contra some_bytes
      have ok := fill_answered (by rw [all]; exact List.length_pos_iff.mpr some_bytes) (by omega) filled
      rw [ok] at failed
      cases failed
    rw [view,nothing,List.append_nil]

structure Alert (s : State (Connection π)) : Prop where
  sound : Answering s.work
  reported : s.waiting = false → s.work.ev.mask = EVMASK_READ ∨ s.work.ev.mask = EVMASK_ERROR

theorem handle_answering (sound : Answering c) (mask : c.ev.mask = EVMASK_READ ∨ c.ev.mask = EVMASK_ERROR)
    (fits : c.queue.length ≤ (bufferSpace c.sock.istm.buf).toNat)
    (room : ∀ i ∈ firstMatch crlf (unread c.sock.istm.buf ++ c.queue),
      (echo ((unread c.sock.istm.buf ++ c.queue).take (i+2))).length < (bufferSpace c.sock.ostm.buf).toNat)
    (ran : echoing.handle c r = some next) : Answering next := by
  obtain ⟨d,did,called⟩ := Option.bind_eq_some_iff.mp ran
  rcases mask with read | error
  · rw [read,dispatch_read] at did
    obtain ⟨out,filled,rfl⟩ := Option.map_eq_some_iff.mp did
    have reset : (streamSetMask c.sock.istm 0).buf = c.sock.istm.buf := rfl
    obtain ⟨received,valid,size,delivered,view⟩ := fill_answering sound reset fits filled
    generalize markError EVMASK_READ (if out.ret ≠ 0 ∧ out.stm.lastErr ≠ EAGAIN then -1 else 0) = why at called
    have emptied : c.queue.drop out.received.length = [] := by rw [received,List.drop_length]
    have taken : Answering (settle c ⟨why,{c.sock with istm:=out.stm},out.world,out.received⟩) := by
      refine ⟨valid,by show out.stm.buf.size.toNat ≤ 2^13; rw [size]; exact sound.inputSmall,sound.output,sound.outputSmall,
        sound.each,?_,?_⟩
      · show c.lines.flatten ++ (unread out.stm.buf ++ c.queue.drop out.received.length) = c.arrived
        rw [emptied,view,List.append_nil]
        exact sound.whole
      · show out.world.delivered ++ unread c.sock.ostm.buf = c.lines.flatMap echo
        rw [delivered]
        exact sound.sent
    by_cases clean : why &&& (EVMASK_ERROR ||| EVMASK_TIME) = 0
    · refine answer_answering taken clean ?_ called
      show ∀ i ∈ firstMatch crlf (unread out.stm.buf), (echo ((unread out.stm.buf).take (i+2))).length < _
      rw [view]
      exact room
    · exact error_answering taken clean called
  · rw [error,dispatch_error] at did
    cases Option.some.inj did
    have bad : EVMASK_ERROR &&& (EVMASK_ERROR ||| EVMASK_TIME) ≠ 0 := by decide
    refine error_answering ?_ bad called
    exact ⟨sound.input,sound.inputSmall,sound.output,sound.outputSmall,sound.each,sound.whole,sound.sent⟩

theorem step_alert {s next : State (Connection π)} {action : Action (List UInt8) Readiness Reaction} (alert : Alert s)
    (roomy : Roomy s action) (ran : step echoing s action = some next) : Alert next := by
  obtain ⟨sound,reported⟩ := alert
  cases action with
  | arrive bytes =>
    cases Option.some.inj ran
    refine ⟨⟨sound.input,sound.inputSmall,sound.output,sound.outputSmall,sound.each,?_,sound.sent⟩,reported⟩
    show s.work.lines.flatten ++ (unread s.work.sock.istm.buf ++ (s.work.queue++bytes)) = s.work.arrived++bytes
    rw [← sound.whole]
    simp only [List.append_assoc]
  | report readiness =>
    obtain ⟨_,ran⟩ := Option.ite_none_right_eq_some.mp ran
    obtain ⟨work,did,rfl⟩ := Option.map_eq_some_iff.mp ran
    obtain ⟨_,same⟩ := Option.ite_none_left_eq_some.mp did
    cases Option.some.inj same
    refine ⟨⟨sound.input,sound.inputSmall,sound.output,sound.outputSmall,sound.each,sound.whole,sound.sent⟩,?_⟩
    intro _
    simp only [events_mask]
    split
    · exact Or.inl rfl
    · exact Or.inr rfl
  | handle reaction =>
    obtain ⟨busy,ran⟩ := Option.ite_none_left_eq_some.mp ran
    obtain ⟨work,did,rfl⟩ := Option.map_eq_some_iff.mp ran
    exact ⟨handle_answering sound (reported (by simpa using busy)) roomy.1 roomy.2 did,nofun⟩

theorem answerLine_lines {istm : Stream} {pos len : UInt32} (ran : answerLine c r istm pos len = some next) :
    next.arrived = c.arrived ∧ next.lines.length = c.lines.length+1 := by
  obtain ⟨record,_,ran⟩ := Option.bind_eq_some_iff.mp ran
  obtain ⟨_,_,ran⟩ := Option.bind_eq_some_iff.mp ran
  obtain ⟨_,_,ran⟩ := Option.bind_eq_some_iff.mp ran
  obtain ⟨_,_,ran⟩ := Option.bind_eq_some_iff.mp ran
  obtain ⟨_,_,rfl⟩ := Option.map_eq_some_iff.mp ran
  exact ⟨rfl,List.length_append⟩

-- One line a call, however many are there.
theorem handle_lines (ran : echoing.handle c r = some next) :
    next.arrived = c.arrived ∧ next.lines.length ≤ c.lines.length+1 := by
  obtain ⟨d,_,ran⟩ := Option.bind_eq_some_iff.mp ran
  unfold ecprocessor at ran
  split at ran
  · cases Option.some.inj ran
    exact ⟨rfl,Nat.le_succ _⟩
  · obtain ⟨⟨got,istm⟩,_,ran⟩ := Option.bind_eq_some_iff.mp ran
    cases got with
    | none =>
      cases Option.some.inj ran
      exact ⟨rfl,Nat.le_succ _⟩
    | some place =>
      dsimp only at ran
      split at ran
      · obtain ⟨arrived,lines⟩ := answerLine_lines ran
        exact ⟨arrived,Nat.le_of_eq lines⟩
      · cases Option.some.inj ran
        exact ⟨rfl,Nat.le_succ _⟩

theorem exec_arrived {s last : State (Connection π)} {actions : List (Action (List UInt8) Readiness Reaction)}
    (ran : exec (step echoing) s actions = some last) : last.work.arrived = s.work.arrived ++ (arrivals actions).flatten := by
  induction actions generalizing s with
  | nil =>
    cases Option.some.inj ran
    exact (List.append_nil _).symm
  | cons action rest ih =>
    obtain ⟨next,one,ran⟩ := exec_cons.mp ran
    rw [ih ran]
    cases action with
    | arrive bytes =>
      cases Option.some.inj one
      exact List.append_assoc ..
    | report readiness =>
      obtain ⟨_,one⟩ := Option.ite_none_right_eq_some.mp one
      obtain ⟨work,did,rfl⟩ := Option.map_eq_some_iff.mp one
      obtain ⟨_,same⟩ := Option.ite_none_left_eq_some.mp did
      cases Option.some.inj same
      rfl
    | handle reaction =>
      obtain ⟨_,one⟩ := Option.ite_none_left_eq_some.mp one
      obtain ⟨work,did,rfl⟩ := Option.map_eq_some_iff.mp one
      exact congrArg (· ++ _) (handle_lines did).1

theorem start_alert {ev : Event π} {address : π} {istm ostm : Stream} {errno : Int} {bufsize bufsize' : UInt32}
    (input : streamNew bufsize true true true = some istm) (output : streamNew bufsize' true true true = some ostm) :
    Alert (start ev address istm ostm errno) := by
  obtain ⟨ivalid,iempty,ismall,_⟩ := streamNew_valid input
  obtain ⟨ovalid,oempty,osmall,_⟩ := streamNew_valid output
  refine ⟨⟨ivalid,ismall,ovalid,osmall,nofun,?_,oempty⟩,nofun⟩
  show unread istm.buf ++ [] = []
  rw [iempty]
  rfl

-- The answers are those to the first lines, in order and each once, but a
-- packet gets one answer at most: lines that arrive together wait for more.
theorem echo_answers_lines {ev : Event π} {address : π} {istm ostm : Stream} {errno : Int} {bufsize bufsize' : UInt32}
    {actions : List (Action (List UInt8) Readiness Reaction)} {last : State (Connection π)}
    (input : streamNew bufsize true true true = some istm) (output : streamNew bufsize' true true true = some ostm)
    (roomy : Along (step echoing) Roomy (start ev address istm ostm errno) actions)
    (ran : exec (step echoing) (start ev address istm ostm errno) actions = some last) :
    last.work.world.delivered ++ unread last.work.sock.ostm.buf = last.work.lines.flatMap echo ∧
    last.work.lines <+: records crlf (arrivals actions).flatten ∧
    last.work.lines.length ≤ (arrivals actions).length ∧
    (last.work.lines = records crlf (arrivals actions).flatten ↔ ¬ crlf <:+: unread last.work.sock.istm.buf ++ last.work.queue) := by
  have alert : Alert last := exec_guarded (fun _ _ _ alert roomy one => step_alert alert roomy one) (start_alert input output) roomy ran
  obtain ⟨⟨_,_,_,_,each,whole,sent⟩,_⟩ := alert
  have arrived : last.work.arrived = (arrivals actions).flatten := exec_arrived ran
  rw [arrived] at whole
  have split : records crlf (arrivals actions).flatten =
      last.work.lines ++ records crlf (unread last.work.sock.istm.buf ++ last.work.queue) := by
    rw [← whole]
    exact records_flatten (by decide) each
  have count := count_le_arrivals (fun work : Connection π => work.lines.length) (fun _ _ => Nat.le_refl _)
    (by
      intro work readiness after did
      obtain ⟨_,same⟩ := Option.ite_none_left_eq_some.mp did
      cases Option.some.inj same
      exact Nat.le_refl _)
    (fun _ _ _ did => (handle_lines did).2) ran
  refine ⟨sent,?_,?_,?_⟩
  · rw [split]
    exact List.prefix_append _ _
  · have none_due : due (start ev address istm ostm errno) = 0 := rfl
    have no_lines : (start ev address istm ostm errno).work.lines.length = 0 := rfl
    omega
  · rw [split,← firstMatch_none]
    constructor
    · intro all
      have none_left := List.append_cancel_left ((List.append_nil _).trans all)
      cases found : firstMatch crlf (unread last.work.sock.istm.buf ++ last.work.queue) with
      | none => rfl
      | some i =>
        rw [records_present (by decide) found] at none_left
        cases none_left
    · intro absent
      rw [records_absent absent,List.append_nil]

end Rounds

-- Two lines in one packet, the first with a NUL in it; a third whose delimiter
-- comes in two packets. The peer takes the first answer in two parts.
def packets : List (Action (List UInt8) Readiness Reaction) :=
  let calm : Reaction := ⟨false,[],(none,none),[],none,[],[.accept 9]⟩
  [.arrive [97,0,98,13,10,99,13,10,100,13],.report ⟨false,false⟩,
    .handle {calm with reply:=[.accept 1,.fail EAGAIN]},.arrive [10],.report ⟨false,false⟩,.handle calm]

theorem packets_answered : ∃ last, exec (step echoing) (start (eventInit 3 0) 3 freshStream freshStream 0) packets = some last ∧
    last.work.lines <+: records crlf (arrivals packets).flatten ∧ last.work.lines.length ≤ 2 ∧
    last.work.lines = [[97,0,98,13,10],[99,13,10]] ∧
    last.work.world.delivered ++ unread last.work.sock.ostm.buf = [97,13,10,99,13,10] ∧
    unread last.work.sock.istm.buf = [100,13,10] := by
  have made : streamNew 0 true true true = some freshStream := rfl
  have roomy : Along (step echoing) Roomy (start (eventInit 3 0) 3 freshStream freshStream 0) packets := by decide +kernel
  have seen : (exec (step echoing) (start (eventInit 3 0) 3 freshStream freshStream 0) packets).map
      (fun last => (last.work.lines,unread last.work.sock.istm.buf)) = some ([[97,0,98,13,10],[99,13,10]],[100,13,10]) := by
    decide +kernel
  obtain ⟨last,ran,same⟩ := Option.map_eq_some_iff.mp seen
  simp only [Prod.mk.injEq] at same
  obtain ⟨lines,left⟩ := same
  obtain ⟨sent,records,bound,_⟩ := echo_answers_lines made made roomy ran
  refine ⟨last,ran,records,bound,lines,?_,left⟩
  rw [sent,lines]
  decide

end EventLib.EchoServer
