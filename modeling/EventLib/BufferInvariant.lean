import EventLib.BufferVprintf
import EventLib.LabelledRuns

namespace EventLib.BufferInvariant
open ByteBuffer BufferVprintf LabelledRuns

inductive Call where
  | read (mem : Bool) (len : UInt32)
  | write (mem : Option (List UInt8)) (len : UInt32) (grant : Grant)
  | extend (len : UInt32) (grant : Grant)
  | yield (delim : List UInt8)
  | vprintf (passes : List Pass)

-- A `buffer_vprintf` still in its loop has not come to a next state.
def finished : Progress → Option Buffer
  | .running _ => none
  | .returned _ c => some c

def step (b : Buffer) : Call → Option Buffer
  | .read mem len => (bufferRead b mem len).map fun result => result.2.2
  | .write mem len grant => (bufferWrite b mem len grant).map Prod.snd
  | .extend len grant => (bufferExtend b len grant).map Prod.snd
  | .yield delim => (bufferYield b delim (UInt32.ofNat delim.length)).map Prod.snd
  | .vprintf passes => (bufferVprintf b passes).bind finished

-- Every access of the call lies inside the block.
def Defined (b : Buffer) : Call → Prop
  | .vprintf passes => (bufferVprintf b passes).isSome
  | call => (step b call).isSome

-- The formatting succeeds, with or without output, and so does the allocation.
def Room (b : Buffer) : Pass → Prop
  | ⟨.text s _,some _⟩ => b.wpos.toNat+s.length < 2^32
  | _ => False

instance : ∀ pass, Decidable (Room b pass)
  | ⟨.text _ _,some _⟩ => inferInstanceAs (Decidable (_ < _))
  | ⟨.text _ _,none⟩ => isFalse id
  | ⟨.error _ _ _,_⟩ => isFalse id

-- `buffer_write` and `buffer_extend` may be refused memory, `buffer_vprintf` not.
def Fits (b : Buffer) : Call → Prop
  | .read _ _ => True
  | .write mem len _ => (∀ bytes ∈ mem, bytes.length = len.toNat) ∧ b.wpos.toNat+len.toNat < 2^32
  | .extend len _ => 1 ≤ len.toNat ∧ b.wpos.toNat+len.toNat < 2^32
  | .yield delim => delim.length < 2^32
  | .vprintf passes => ∀ pass ∈ passes, Room b pass

instance : ∀ call, Decidable (Fits b call)
  | .read _ _ => isTrue trivial
  | .write none len _ => decidable_of_iff (b.wpos.toNat+len.toNat < 2^32) ⟨fun room => ⟨by simp,room⟩,And.right⟩
  | .write (some bytes) len _ => decidable_of_iff (bytes.length = len.toNat ∧ b.wpos.toNat+len.toNat < 2^32)
      ⟨fun both => ⟨fun _ same => by cases same; exact both.1,both.2⟩,fun fits => ⟨fits.1 bytes rfl,fits.2⟩⟩
  | .extend _ _ => inferInstanceAs (Decidable (_ ∧ _))
  | .yield _ => inferInstanceAs (Decidable (_ < _))
  | .vprintf _ => inferInstanceAs (Decidable (∀ _ ∈ _, _))

-- The same without the last condition: `buffer_vprintf` may be refused memory too.
def Formats (b : Buffer) : Pass → Prop
  | ⟨.text s _,_⟩ => b.wpos.toNat+s.length < 2^32
  | ⟨.error _ _ _,_⟩ => False

instance : ∀ pass, Decidable (Formats b pass)
  | ⟨.text _ _,_⟩ => inferInstanceAs (Decidable (_ < _))
  | ⟨.error _ _ _,_⟩ => isFalse id

def Admits (b : Buffer) : Call → Prop
  | .vprintf passes => ∀ pass ∈ passes, Formats b pass
  | call => Fits b call

instance : ∀ call, Decidable (Admits b call)
  | .vprintf _ => inferInstanceAs (Decidable (∀ _ ∈ _, _))
  | .read mem len => inferInstanceAs (Decidable (Fits b (.read mem len)))
  | .write mem len grant => inferInstanceAs (Decidable (Fits b (.write mem len grant)))
  | .extend len grant => inferInstanceAs (Decidable (Fits b (.extend len grant)))
  | .yield delim => inferInstanceAs (Decidable (Fits b (.yield delim)))

structure Represented (b : Buffer) : Prop where
  order : b.rpos < b.wpos ∧ b.wpos ≤ b.size ∨ b.rpos = 0 ∧ b.wpos = 0
  block : b.size.toNat = b.buf.length
  avail : (bufferAvail b).toNat+b.rpos.toNat = b.wpos.toNat
  space : (bufferSpace b).toNat+b.wpos.toNat = b.size.toNat

variable {b c : Buffer} {call : Call}

theorem Room.formats {pass : Pass} (room : Room b pass) : Formats b pass := by
  obtain ⟨formatted,grant⟩ := pass
  cases formatted with
  | error ret negative left => exact room.elim
  | text s short =>
    cases grant with
    | none => exact room.elim
    | some fresh => exact room

theorem Fits.admits (fits : Fits b call) : Admits b call := by
  cases call with
  | vprintf passes => exact fun pass member => (fits pass member).formats
  | _ => exact fits

theorem valid_represented (valid : Valid b) : Represented b := by
  have ordered := valid.ordered
  have room := valid.room
  have length := valid.unread_length
  have avail := valid.avail_exact
  have space := valid.space_exact
  refine ⟨?_,valid.block.symm,by omega,by omega⟩
  rcases valid.order with before | sits
  · exact Or.inl ⟨UInt32.lt_iff_toNat_lt.mpr before,UInt32.le_iff_toNat_le.mpr room⟩
  · exact Or.inr sits

def standing : Progress → Buffer
  | .running c => c
  | .returned _ c => c

theorem Formats.shorter {pass : Pass} (formats : Formats b pass) (wpos : c.wpos.toNat ≤ b.wpos.toNat) : Formats c pass := by
  obtain ⟨formatted,grant⟩ := pass
  cases formatted with
  | error ret negative left => exact formats.elim
  | text s short => exact Nat.lt_of_le_of_lt (Nat.add_le_add_right wpos _) formats

-- One pass ends the call in the block it found, or goes on in one as large.
theorem turn_stands {pass : Pass} (valid : Valid b) (formats : Formats b pass) :
    (∃ ret c, vprintfTurn b pass = some (.returned ret c) ∧ Valid c) ∨
      ∃ c, vprintfTurn b pass = some (.running c) ∧ Valid c ∧ b.size ≤ c.size ∧ c.wpos.toNat ≤ b.wpos.toNat := by
  obtain ⟨formatted,grant⟩ := pass
  cases formatted with
  | error ret negative left => exact formats.elim
  | text s short =>
    have room : b.wpos.toNat+s.length < 2^32 := formats
    by_cases nothing : s = []
    · subst nothing
      obtain ⟨c,turn,cvalid,_⟩ := text_empty grant short valid
      exact Or.inl ⟨_,c,turn,cvalid⟩
    · by_cases within : s.length ≤ (bufferSpace b).toNat
      · obtain ⟨c,turn,cvalid,_⟩ := text_fits grant short valid nothing within
        exact Or.inl ⟨_,c,turn,cvalid⟩
      · have space := valid.space_exact
        have ordered := valid.ordered
        obtain ⟨c,turn,cvalid,_,_,wpos,outcome⟩ := text_extends grant short valid (by omega) (by omega)
        refine Or.inr ⟨c,turn,cvalid,?_,by omega⟩
        simp only [Compacts,text_word short] at outcome
        rw [UInt32.le_iff_toNat_le]
        rcases outcome with ⟨_,size⟩ | ⟨tight,_,size⟩ | ⟨_,_,size⟩
        · rw [size]
        · omega
        · rw [size]

-- The texts may differ from pass to pass; `wpos` never grows before the last.
theorem vprintf_stands {passes : List Pass} (valid : Valid b) (formats : ∀ pass ∈ passes, Formats b pass) :
    ∃ progress, bufferVprintf b passes = some progress ∧ Valid (standing progress) ∧ b.size ≤ (standing progress).size := by
  induction passes generalizing b with
  | nil => exact ⟨.running b,rfl,valid,UInt32.le_refl _⟩
  | cons pass rest ih =>
    rw [List.forall_mem_cons] at formats
    rcases turn_stands valid formats.1 with ⟨ret,c,turn,cvalid⟩ | ⟨c,turn,cvalid,larger,shorter⟩
    · refine ⟨_,vprintf_returned turn,cvalid,?_⟩
      show b.size ≤ c.size
      rw [returned_size turn]
      exact UInt32.le_refl _
    · obtain ⟨progress,ran,pvalid,size⟩ := ih cvalid fun pass member => (formats.2 pass member).shorter shorter
      exact ⟨progress,(vprintf_running turn).trans ran,pvalid,UInt32.le_trans larger size⟩

theorem write_stands {mem : Option (List UInt8)} {len : UInt32} (grant : Grant) (valid : Valid b)
    (source : ∀ bytes ∈ mem, bytes.length = len.toNat) (fits : b.wpos.toNat+len.toNat < 2^32) :
    ∃ ret c, bufferWrite b mem len grant = some (ret,c) ∧ Valid c := by
  cases mem with
  | none =>
    obtain ⟨ret,c,ran,cvalid,_⟩ := bufferWrite_commits len grant valid fits
    exact ⟨ret,c,ran,cvalid⟩
  | some bytes =>
    obtain ⟨ret,c,ran,cvalid,_⟩ := bufferWrite_spec grant valid fits bytes (source bytes rfl)
    exact ⟨ret,c,ran,cvalid⟩

theorem call_stands (valid : Valid b) (fits : Admits b call) :
    Defined b call ∧ ∀ next, step b call = some next → Valid next := by
  cases call with
  | read mem len =>
    obtain ⟨_,_,c,ran,cvalid,_⟩ := bufferRead_spec mem len valid
    simp [Defined,step,ran,cvalid]
  | write mem len grant =>
    obtain ⟨_,c,ran,cvalid⟩ := write_stands grant valid fits.1 fits.2
    simp [Defined,step,ran,cvalid]
  | extend len grant =>
    have room := fits.2
    obtain ⟨_,c,ran,cvalid,_⟩ := bufferExtend_spec grant valid.bounded fits.1 (by omega)
    simp [Defined,step,ran,cvalid]
  | yield delim =>
    obtain ⟨_,c,ran,cvalid,_⟩ := bufferYield_spec valid (length_word fits).symm
    simp [Defined,step,ran,cvalid]
  | vprintf passes =>
    obtain ⟨progress,ran,stands,_⟩ := vprintf_stands valid fits
    refine ⟨by rw [Defined,ran]; rfl,?_⟩
    intro next did
    rw [step,ran] at did
    cases progress with
    | running d => cases did
    | returned ret d =>
      cases Option.some.inj did
      exact stands

theorem representation_kept {header block : Bool} {calls : List Call} (made : bufferNew 0 header block = some b)
    (fits : Along step Fits b calls) :
    Along step Defined b calls ∧ ∀ last, exec step b calls = some last → Represented last := by
  have valid := (bufferNew_valid made).1
  refine ⟨along_guarded ?_ ?_ valid fits,?_⟩
  · intro b call next valid fits ran
    exact (call_stands valid fits.admits).2 next ran
  · intro b call valid fits
    exact (call_stands valid fits.admits).1
  · intro last ran
    apply valid_represented
    refine exec_guarded ?_ valid fits ran
    intro b call next valid fits ran
    exact (call_stands valid fits.admits).2 next ran

theorem one_short : ([100] : List UInt8).length < 2^31 := by decide

-- The refused growth has already moved the unread byte to the front; the last
-- one shrinks the block to what is unread and one byte.
def everyOperation : List Call :=
  [.write (some [97,98,99]) 3 none,.yield [98],.extend 8192 none,.vprintf [printing [100] one_short],.read true 1,.write none 2 none,
    .extend 1 none,.extend 1 (some zeroes),.yield []]

theorem every_operation_represented : bufferNew 0 true true = some freshBuffer ∧ Along step Fits freshBuffer everyOperation ∧
    ∃ last, exec step freshBuffer everyOperation = some last ∧ Represented last ∧ last.size = 4 ∧ last.wpos = 3 := by
  have made : bufferNew 0 true true = some freshBuffer := rfl
  have fits : Along step Fits freshBuffer everyOperation := by decide +kernel
  have returned : (exec step freshBuffer everyOperation).map (fun last => (last.size,last.wpos)) = some (4,3) := by decide +kernel
  obtain ⟨last,ran,seen⟩ := Option.map_eq_some_iff.mp returned
  simp only [Prod.mk.injEq] at seen
  exact ⟨made,fits,last,ran,(representation_kept made fits).2 last ran,seen.1,seen.2⟩

end EventLib.BufferInvariant
