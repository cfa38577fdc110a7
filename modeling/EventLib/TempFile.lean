import EventLib.Errno
import EventLib.ByteBlock
import EventLib.PositionalCode
import Mathlib.Algebra.Ring.Int.Defs
import Mathlib.Data.Fintype.Basic

namespace EventLib.TempFile
open ByteBlock PositionalCode Errnos

section Names

-- `base` is the clock's value, `frame` the address of the local that holds it
-- and `file` the address the name goes to.
def noddyRando (base frame file : UInt64) : UInt64 := (base*65537 ^^^ frame/16)+file

def tempChar (r : UInt64) : UInt8 := (65+(r &&& 15)+(r &&& 16)*2).toUInt8

-- The loop of `_make_temp_name`, from the value `r` on; `file` is an offset
-- into the block of the template.
def makeTempName (block : List UInt8) (file : Nat) (r : UInt64) : Nat → Option (List UInt8)
  | 0 => some block
  | len+1 => (store block file [tempChar r]).bind fun next => makeTempName next (file+1) (r >>> 5) len

def tempName (r : UInt64) : Nat → List UInt8
  | 0 => []
  | len+1 => tempChar r :: tempName (r >>> 5) len

-- One of A-P and a-p.
def Letter (c : UInt8) : Prop := 65 ≤ c ∧ c ≤ 80 ∨ 97 ≤ c ∧ c ≤ 112

instance (c : UInt8) : Decidable (Letter c) := inferInstanceAs (Decidable (_ ∨ _))

def letter (digit : Fin 32) : UInt8 := tempChar (UInt64.ofNat digit)

variable {r q : UInt64} {n : Nat}

theorem low_digit (r : UInt64) : UInt64.ofNat (Fin.ofNat 32 r.toNat) = r &&& 31 := by
  apply UInt64.toNat_inj.mp
  have small : r.toNat%32 < UInt64.size := by
    have := Nat.mod_lt r.toNat (by decide : 0 < 32)
    rw [UInt64.size]
    omega
  rw [UInt64.toNat_and,Fin.val_ofNat,UInt64.toNat_ofNat_of_lt' small]
  exact (Nat.and_two_pow_sub_one_eq_mod r.toNat 5).symm

theorem tempChar_letter (r : UInt64) : tempChar r = letter (Fin.ofNat 32 r.toNat) := by
  have low : r &&& 31 &&& 15 = r &&& 15 := UInt64.and_assoc r 31 15
  have fifth : r &&& 31 &&& 16 = r &&& 16 := UInt64.and_assoc r 31 16
  rw [letter,low_digit,tempChar,tempChar,low,fifth]

theorem letter_injective : Function.Injective letter := by decide

theorem sixteen_letters {first c : UInt8} (digits : Fin 16 → Fin 32) (least : first ≤ c) (most : c ≤ first+15)
    (spelled : ∀ k : Fin 16, letter (digits k) = first+UInt8.ofNat k) : c ∈ Set.range letter := by
  have within : (c-first).toNat < 16 := by
    rw [UInt8.le_iff_toNat_le,UInt8.toNat_add] at most
    rw [UInt8.toNat_sub_of_le _ _ least]
    have fifteen : (15 : UInt8).toNat = 15 := rfl
    omega
  refine ⟨digits ⟨(c-first).toNat,within⟩,(spelled _).trans ?_⟩
  rw [UInt8.ofNat_toNat,UInt8.add_comm,UInt8.sub_add_cancel]

theorem letter_range (c : UInt8) : c ∈ Set.range letter ↔ Letter c := by
  constructor
  · rintro ⟨digit,rfl⟩
    revert digit
    decide
  · rintro (⟨least,most⟩ | ⟨least,most⟩)
    · exact sixteen_letters (fun k => ⟨k,by omega⟩) least most (by decide)
    · exact sixteen_letters (fun k => ⟨16+k,by omega⟩) least most (by decide)

theorem tempName_spell : tempName r n = spell letter r.toNat n := by
  induction n generalizing r with
  | zero => rfl
  | succ n ih =>
    have shifted : (r >>> 5).toNat = r.toNat/32 := by
      rw [UInt64.toNat_shiftRight]
      exact Nat.shiftRight_eq_div_pow r.toNat 5
    rw [tempName,spell,tempChar_letter,ih,shifted]

@[simp] theorem tempName_length : (tempName r n).length = n := by rw [tempName_spell,spell_length]

theorem tempName_letters : ∀ c ∈ tempName r n, Letter c := by
  rw [tempName_spell]
  intro c member
  exact (letter_range c).mp (spell_letters c member)

theorem makeTempName_puts {block : List UInt8} {file : Nat} (bound : file+n ≤ block.length) :
    makeTempName block file r n = some (put block file (tempName r n)) := by
  induction n generalizing block file r with
  | zero => simp [makeTempName,tempName,put]
  | succ n ih =>
    have one : file+[tempChar r].length ≤ block.length := by
      rw [List.length_singleton]
      omega
    have rest : file+1+n ≤ (put block file [tempChar r]).length := by
      rw [put_length one]
      omega
    rw [makeTempName,store_some one,Option.bind_some,ih rest,put_cons (by rw [tempName_length]; omega)]
    rfl

-- Thirteen letters already spell the whole word.
theorem word_digits (r q : UInt64) (n : Nat) :
    r.toNat%32^n = q.toNat%32^n ↔ r.toNat%2^min (5*n) 64 = q.toNat%2^min (5*n) 64 := by
  have power : 32^n = 2^(5*n) := by rw [Nat.pow_mul]
  rw [power]
  by_cases short : 5*n ≤ 64
  · rw [Nat.min_eq_left short]
  · have most : 2^64 ≤ 2^(5*n) := Nat.pow_le_pow_right (by decide) (by omega)
    have r_small := r.toNat_lt
    have q_small := q.toNat_lt
    rw [Nat.min_eq_right (by omega),Nat.mod_eq_of_lt (by omega),Nat.mod_eq_of_lt (by omega),Nat.mod_eq_of_lt r_small,
      Nat.mod_eq_of_lt q_small]

theorem tempName_onto {chars : List UInt8} (short : chars.length ≤ 12) (letters : ∀ c ∈ chars, Letter c) :
    ∃ r, tempName r chars.length = chars := by
  obtain ⟨value,small,spelled⟩ := spell_onto fun c member => (letter_range c).mpr (letters c member)
  have fits : value < UInt64.size := by
    have most : 32^chars.length ≤ 32^12 := Nat.pow_le_pow_right (by decide) short
    rw [UInt64.size]
    omega
  refine ⟨UInt64.ofNat value,?_⟩
  rw [tempName_spell,UInt64.toNat_ofNat_of_lt' fits,spelled]

theorem names_keep_randomness (n : Nat) :
    (∀ block file r, file+n ≤ block.length → makeTempName block file r n = some (put block file (tempName r n))) ∧
      (∀ r q, tempName r n = tempName q n ↔ r.toNat%2^min (5*n) 64 = q.toNat%2^min (5*n) 64) ∧
      (n ≤ 12 → ∀ chars : List UInt8, chars.length = n → (∀ c ∈ chars, Letter c) → ∃ r, tempName r n = chars) := by
  refine ⟨fun block file r bound => makeTempName_puts bound,?_,?_⟩
  · intro r q
    rw [tempName_spell,tempName_spell,spell_eq_iff letter_injective,word_digits]
  · rintro short chars rfl letters
    exact tempName_onto short letters

-- The bits from the eleventh on do not reach a name of two letters.
theorem two_letters_named : makeTempName [47,88,88,46] 1 0x3E1 2 = some [47,66,112,46] ∧
    tempName 0x7E1 2 = tempName 0x3E1 2 ∧ tempName 0x3C1 2 ≠ tempName 0x3E1 2 ∧ ∃ r, tempName r 2 = [66,112] := by
  obtain ⟨stores,same,onto⟩ := names_keep_randomness 2
  have letters : ∀ c ∈ [66,112], Letter c := by
    rw [List.forall_mem_cons,List.forall_mem_singleton]
    decide
  exact ⟨stores [47,88,88,46] 1 0x3E1 (by decide),(same _ _).mpr (by decide),fun equal => absurd ((same _ _).mp equal) (by decide),
    onto (by decide) [66,112] rfl letters⟩

end Names

section Template

def O_RDWR : Int32 := 0x02
def O_CREAT : Int32 := 0x40
def O_EXCL : Int32 := 0x80

-- What stands before the terminator.
def text (block : List UInt8) : List UInt8 := block.takeWhile (· ≠ 0)

def strlen (block : List UInt8) : Option Nat := if 0 ∈ block then some (text block).length else none

inductive Opened where
  | descriptor (fd : Nat)
  | failed (errno : Int)
deriving DecidableEq

-- What one turn of the loop finds: the clock and the stack of `noddy_rando`,
-- and the answer of `open`.
structure Turn where
  base : UInt64
  frame : UInt64
  opened : Opened
deriving DecidableEq

structure Request where
  path : List UInt8
  flags : Int32
  mode : UInt32
deriving DecidableEq

structure Result where
  ret : Int
  errno : Int
  filetpl : List UInt8
  tried : List Request
deriving DecidableEq

-- The arguments besides the template and its suffix length, with the address of
-- the template, the caller's errno and the turns there can be.
structure Call where
  flags : Int32
  address : UInt64
  errno : Int
  turns : Nat → Turn

-- The value of `open` and errno after it; a success leaves errno alone.
def answer (errno : Int) : Opened → Int × Int
  | .descriptor fd => (fd,errno)
  | .failed errno => (-1,errno)

def requested (flags : Int32) (block : List UInt8) : Request :=
  ⟨text block,flags ||| O_RDWR ||| O_CREAT ||| O_EXCL,0o600⟩

-- Descriptor 0 counts as a failure, whose errno is then an old one.
def attempts (base tlen : Nat) : Nat → Call → List UInt8 → Option Result
  | 0,call,block => some ⟨-1,call.errno,block,[]⟩
  | retries+1,call,block =>
    let turn := call.turns 0
    (makeTempName block base (noddyRando turn.base turn.frame (call.address+UInt64.ofNat base)) tlen).bind fun named =>
      let request := requested call.flags named
      let (fd,errno) := answer call.errno turn.opened
      if 0 < fd then some ⟨fd,errno,named,[request]⟩
      else if errno ≠ EEXIST then some ⟨-1,errno,named,[request]⟩
      else (attempts base tlen retries {call with errno:=errno,turns:=fun i => call.turns (i+1)} named).map fun result =>
        {result with tried:=request :: result.tried}

-- The offset of `base` before the scan. The difference is an `int`, and a
-- pointer before the template is no pointer into its block.
def scanStart (len sufflen : Int32) : Option Nat :=
  if 1 ≤ len.toInt-sufflen.toInt ∧ len.toInt-sufflen.toInt < 2^31 then some (len.toInt-sufflen.toInt-1).toNat else none

-- `while (*base == 'X' && base > filetpl)`: the first byte is read and never counted.
def scanBack (block : List UInt8) : Nat → Nat → Option (Nat × Nat)
  | 0,tlen => (block[0]?).map fun _ => (0,tlen)
  | base+1,tlen => (block[base+1]?).bind fun c => if c = 88 then scanBack block base (tlen+1) else some (base+1,tlen)

def tempfd (filetpl : List UInt8) (sufflen : Int32) (call : Call) : Option Result :=
  (strlen filetpl).bind fun len =>
  (scanStart (Int32.ofNat len) sufflen).bind fun start =>
  (scanBack filetpl start 0).bind fun (base,tlen) =>
    if tlen = 0 then some ⟨-1,EINVAL,filetpl,[]⟩ else attempts (base+1) tlen 100 call filetpl

-- The array that holds the template, with whatever follows the terminator.
def template (p : List UInt8) (n : Nat) (s beyond : List UInt8) : List UInt8 :=
  p++(List.replicate n 88++(s++0 :: beyond))

def Shaped (left right : List UInt8) (n : Nat) (name : List UInt8) : Prop :=
  ∃ chars, chars.length = n ∧ (∀ c ∈ chars, Letter c) ∧ name = left++(chars++right)

structure Fills (p : List UInt8) (n : Nat) (s beyond : List UInt8) (sufflen : Int32) (call : Call) : Prop where
  refuses : n = 0 → p ≠ [] → ∃ out, tempfd (template p n s beyond) sufflen call = some out ∧ out.ret = -1 ∧
    out.errno = EINVAL ∧ out.filetpl = template p n s beyond ∧ out.tried.length ≤ 100
  fills : 1 ≤ n → ∃ out, tempfd (template p n s beyond) sufflen call = some out ∧ Shaped p (s++0 :: beyond) n out.filetpl ∧
    (∀ request ∈ out.tried, Shaped p s n request.path) ∧ out.tried.length ≤ 100

-- A template too long for the `int`, with no X to fill: the scan starts
-- elsewhere in it, and not on an X it would count.
def Spared (p s : List UInt8) : Prop :=
  s.length < (p.length+s.length)%2^32 ∧ (p.length+s.length)%2^32 < 2^31 ∧
    ((p.length+s.length)%2^32-s.length-1 = 0 ∨ p[(p.length+s.length)%2^32-s.length-1]? ≠ some 88)

structure Stops (block : List UInt8) (start stop : Nat) : Prop where
  inside : start < block.length
  below : stop ≤ start
  halts : stop = 0 ∨ block[stop]? ≠ some 88
  counted : ∀ i, stop < i → i ≤ start → block[i]? = some 88

variable {p s beyond block left here right name : List UInt8} {n start stop i : Nat} {sufflen : Int32} {call : Call}

theorem text_clean (clean : 0 ∉ name) : text (name++0 :: beyond) = name := by
  induction name with
  | nil => rfl
  | cons c rest ih =>
    rw [List.mem_cons,not_or] at clean
    have other : c ≠ 0 := fun zero => clean.1 zero.symm
    rw [text,List.cons_append,List.takeWhile_cons,if_pos (decide_eq_true other)]
    exact congrArg (c :: ·) (ih clean.2)

theorem strlen_clean (clean : 0 ∉ name) : strlen (name++0 :: beyond) = some name.length := by
  rw [strlen,if_pos (by simp),text_clean clean]

theorem scanStart_iff {len m : Nat} (suffix : sufflen.toInt = m) :
    scanStart (Int32.ofNat len) sufflen = some start ↔
      m < len%2^32 ∧ len%2^32 < 2^31 ∧ start = len%2^32-m-1 := by
  have word : (Int32.ofNat len).toInt = if len%2^32 < 2^31 then ((len%2^32 : Nat) : Int) else (len%2^32 : Nat)-2^32 := by
    have size : Int32.size = 2^32 := rfl
    rw [Int32.toInt_ofNat',size,Int.bmod_def]
    split <;> split <;> omega
  rw [scanStart,Option.ite_none_right_eq_some,suffix,word,Option.some.injEq]
  split <;> omega

theorem scanBack_stops (tlen : Nat) (inside : start < block.length) :
    ∃ stop, Stops block start stop ∧ scanBack block start tlen = some (stop,tlen+(start-stop)) := by
  induction start generalizing tlen with
  | zero =>
    refine ⟨0,⟨inside,Nat.le_refl _,Or.inl rfl,fun i above within => by omega⟩,?_⟩
    rw [scanBack,List.getElem?_eq_getElem inside]
    rfl
  | succ start ih =>
    have here : block[start+1]? = some block[start+1] := List.getElem?_eq_getElem inside
    rw [scanBack,here,Option.bind_some]
    by_cases counts : block[start+1] = 88
    · obtain ⟨stop,stops,ran⟩ := ih (tlen+1) (by omega)
      have below := stops.below
      refine ⟨stop,⟨inside,by omega,stops.halts,?_⟩,?_⟩
      · intro i above within
        by_cases last : i = start+1
        · rw [last,here,counts]
        · exact stops.counted i above (by omega)
      · rw [if_pos counts,ran]
        congr 2
        omega
    · refine ⟨start+1,⟨inside,Nat.le_refl _,Or.inr ?_,fun i above within => by omega⟩,?_⟩
      · rw [here]
        exact fun same => counts (Option.some.inj same)
      · rw [if_neg counts,Nat.sub_self]
        rfl

-- Induction on the retries left: each turn writes over the letters of the one
-- before, so what stands left and right of them is that of the template.
theorem attempts_shaped (left here right : List UInt8) (retries : Nat) (call : Call) :
    ∃ out, attempts left.length here.length retries call (left++(here++right)) = some out ∧ out.tried.length ≤ retries ∧
      (∀ request ∈ out.tried, ∃ named, Shaped left right here.length named ∧ request.path = text named) ∧
      (0 < retries ∨ (∀ c ∈ here, Letter c) → Shaped left right here.length out.filetpl) := by
  induction retries generalizing call here with
  | zero =>
    refine ⟨_,rfl,Nat.le_refl _,by simp,?_⟩
    intro letters
    exact ⟨here,rfl,letters.resolve_left (Nat.lt_irrefl 0),rfl⟩
  | succ retries ih =>
    let turn := call.turns 0
    let chars := tempName (noddyRando turn.base turn.frame (call.address+UInt64.ofNat left.length)) here.length
    have length : chars.length = here.length := tempName_length
    have shaped : Shaped left right here.length (left++(chars++right)) := ⟨chars,length,tempName_letters,rfl⟩
    have made : makeTempName (left++(here++right)) left.length
        (noddyRando turn.base turn.frame (call.address+UInt64.ofNat left.length)) here.length = some (left++(chars++right)) := by
      rw [makeTempName_puts (by simp only [List.length_append]; omega),put_middle length]
    have alone : ∀ request ∈ [requested call.flags (left++(chars++right))],
        ∃ named, Shaped left right here.length named ∧ request.path = text named := by
      intro request member
      rw [List.mem_singleton.mp member]
      exact ⟨_,shaped,rfl⟩
    let next : Call := {call with errno:=(answer call.errno turn.opened).2,turns:=fun i => call.turns (i+1)}
    obtain ⟨out,ran,few,paths,final⟩ := ih chars next
    rw [length] at ran paths final
    rw [attempts,made,Option.bind_some]
    dsimp only
    by_cases opened : 0 < (answer call.errno turn.opened).1
    · rw [if_pos opened]
      exact ⟨_,rfl,Nat.succ_pos _,alone,fun _ => shaped⟩
    · rw [if_neg opened]
      by_cases exists_already : (answer call.errno turn.opened).2 = EEXIST
      · rw [if_neg (not_not.mpr exists_already),ran]
        refine ⟨_,rfl,Nat.succ_le_succ few,?_,fun _ => final (Or.inr tempName_letters)⟩
        intro request member
        rcases List.mem_cons.mp member with rfl | later
        · exact alone _ (List.mem_singleton_self _)
        · exact paths request later
      · rw [if_pos exists_already]
        exact ⟨_,rfl,Nat.succ_pos _,alone,fun _ => shaped⟩

theorem template_run (from_p : p.length ≤ i) (to_s : i < p.length+n) : (template p n s beyond)[i]? = some 88 := by
  rw [template,List.getElem?_append_right from_p,List.getElem?_append_left (by rw [List.length_replicate]; omega),
    List.getElem?_replicate,if_pos (by omega)]

theorem template_front (inside : i < p.length) : (template p n s beyond)[i]? = p[i]? := List.getElem?_append_left inside

theorem template_length : (template p n s beyond).length = p.length+n+s.length+1+beyond.length := by
  simp only [template,List.length_append,List.length_replicate,List.length_cons]
  omega

theorem x_not_letter : ¬ Letter 88 := by decide

theorem shaped_letter (shaped : Shaped left right n name) (from_left : left.length ≤ i) (to_right : i < left.length+n) :
    name[i]? ≠ some 88 := by
  obtain ⟨chars,length,letters,rfl⟩ := shaped
  rw [List.getElem?_append_right from_left,List.getElem?_append_left (by omega)]
  intro same
  exact x_not_letter (letters 88 (List.mem_of_getElem? same))

theorem shaped_outside (shaped : Shaped left right here.length name) (outside : i < left.length ∨ left.length+here.length ≤ i) :
    name[i]? = (left++(here++right))[i]? := by
  obtain ⟨chars,length,_,rfl⟩ := shaped
  rcases outside with before | after
  · rw [List.getElem?_append_left before,List.getElem?_append_left before]
  · rw [List.getElem?_append_right (by omega),List.getElem?_append_right (by omega),List.getElem?_append_right (by omega),
      List.getElem?_append_right (by omega),length]

-- The byte before the X run ends the scan, so all of it is counted.
theorem whole_run_counted (some_p : p ≠ []) (ends : p.getLast? ≠ some 88)
    (stops : Stops (template p n s beyond) (p.length+n-1) stop) : stop = p.length-1 := by
  have positive := List.length_pos_iff.mpr some_p
  have below := stops.below
  rw [List.getLast?_eq_getElem?] at ends
  by_contra other
  rcases Nat.lt_or_gt_of_ne other with before | after
  · have counted := stops.counted (p.length-1) before (by omega)
    rw [template_front (by omega)] at counted
    exact ends counted
  · rcases stops.halts with first | differs
    · omega
    · exact differs (template_run (by omega) (by omega))

-- The counted places are no X any more, every other place is as it was.
theorem attempts_places (stops : Stops block start stop)
    (ran : attempts (stop+1) (start-stop) 100 call block = some out) :
    (∀ i, stop < i → i ≤ start → out.filetpl[i]? ≠ some 88) ∧
      ∀ i, i ≤ stop ∨ start < i → out.filetpl[i]? = block[i]? := by
  have inside := stops.inside
  have below := stops.below
  have bound : stop+1+(start-stop) ≤ block.length := by omega
  obtain ⟨left,here,right,rfl,base,tlen⟩ := block_split bound
  obtain ⟨last,made,_,_,final⟩ := attempts_shaped left here right 100 call
  rw [← base,← tlen,made] at ran
  cases Option.some.inj ran
  have shaped := final (Or.inl (by decide))
  constructor
  · intro i above within
    exact shaped_letter shaped (by omega) (by omega)
  · intro i away
    exact shaped_outside shaped (by omega)

section Scanned
variable (clean_p : 0 ∉ p) (clean_s : 0 ∉ s) (suffix : sufflen.toInt = s.length)
include clean_p clean_s

theorem shaped_text (shaped : Shaped p (s++0 :: beyond) n name) : Shaped p s n (text name) := by
  obtain ⟨chars,length,letters,rfl⟩ := shaped
  have clean : 0 ∉ p++(chars++s) := by
    simp only [List.mem_append,not_or]
    exact ⟨clean_p,fun zero => absurd (letters 0 zero) (by decide),clean_s⟩
  refine ⟨chars,length,letters,?_⟩
  have whole : p++(chars++(s++0 :: beyond)) = (p++(chars++s))++0 :: beyond := by simp only [List.append_assoc]
  rw [whole,text_clean clean]

theorem template_strlen : strlen (template p n s beyond) = some (p.length+n+s.length) := by
  have clean : 0 ∉ p++(List.replicate n 88++s) := by
    simp only [List.mem_append,List.mem_replicate,not_or]
    exact ⟨clean_p,fun both => absurd both.2 (by decide),clean_s⟩
  have whole : template p n s beyond = (p++(List.replicate n 88++s))++0 :: beyond := by
    simp only [template,List.append_assoc]
  rw [whole,strlen_clean clean]
  simp only [List.length_append,List.length_replicate,Nat.add_assoc]

include suffix

-- Everything a call can do: no pointer into the template, no X before the
-- suffix, or names in place of the counted ones.
theorem tempfd_cases (n : Nat) (beyond : List UInt8) (call : Call) :
    tempfd (template p n s beyond) sufflen call = none ∧
        ¬ (s.length < (p.length+n+s.length)%2^32 ∧ (p.length+n+s.length)%2^32 < 2^31) ∨
      ∃ start stop, (s.length < (p.length+n+s.length)%2^32 ∧ (p.length+n+s.length)%2^32 < 2^31 ∧
          start = (p.length+n+s.length)%2^32-s.length-1) ∧ Stops (template p n s beyond) start stop ∧
        (stop = start ∧ tempfd (template p n s beyond) sufflen call = some ⟨-1,EINVAL,template p n s beyond,[]⟩ ∨
          stop < start ∧ tempfd (template p n s beyond) sufflen call =
            attempts (stop+1) (start-stop) 100 call (template p n s beyond)) := by
  rw [tempfd,template_strlen clean_p clean_s,Option.bind_some]
  cases started : scanStart (Int32.ofNat (p.length+n+s.length)) sufflen with
  | none =>
    refine Or.inl ⟨rfl,?_⟩
    rintro ⟨least,most⟩
    rw [(scanStart_iff suffix).mpr ⟨least,most,rfl⟩] at started
    cases started
  | some start =>
    obtain ⟨least,most,place⟩ := (scanStart_iff suffix).mp started
    have whole : (p.length+n+s.length)%2^32 ≤ p.length+n+s.length := Nat.mod_le _ _
    have inside : start < (template p n s beyond).length := by
      rw [template_length]
      omega
    obtain ⟨stop,stops,ran⟩ := scanBack_stops 0 inside
    have below := stops.below
    refine Or.inr ⟨start,stop,⟨least,most,place⟩,stops,?_⟩
    rw [Option.bind_some,ran,Option.bind_some,Nat.zero_add]
    dsimp only
    by_cases none_counted : stop = start
    · exact Or.inl ⟨none_counted,by rw [if_pos (by omega)]⟩
    · exact Or.inr ⟨by omega,by rw [if_neg (by omega)]⟩

theorem short_template_filled (beyond : List UInt8) (call : Call) (ends : p.getLast? ≠ some 88) (some_p : p ≠ [])
    (short : p.length+n+s.length < 2^31) : Fills p n s beyond sufflen call := by
  have positive := List.length_pos_iff.mpr some_p
  have same : (p.length+n+s.length)%2^32 = p.length+n+s.length := Nat.mod_eq_of_lt (by omega)
  rcases tempfd_cases clean_p clean_s suffix n beyond call with ⟨_,outside⟩ | ⟨start,stop,⟨_,_,place⟩,stops,outcome⟩
  · exact absurd ⟨by omega,by omega⟩ outside
  · obtain rfl : start = p.length+n-1 := by omega
    have stopped := whole_run_counted some_p ends stops
    rcases outcome with ⟨none_counted,ran⟩ | ⟨some_counted,ran⟩
    · exact ⟨fun _ _ => ⟨_,ran,rfl,rfl,rfl,Nat.zero_le _⟩,fun least => by omega⟩
    · obtain ⟨out,made,few,paths,final⟩ := attempts_shaped p (List.replicate n 88) (s++0 :: beyond) 100 call
      have base : stop+1 = p.length := by omega
      have tlen : p.length+n-1-stop = n := by omega
      rw [base,tlen] at ran
      rw [List.length_replicate] at made paths final
      refine ⟨fun zero => by omega,fun _ => ⟨out,ran.trans made,final (Or.inl (by decide)),?_,few⟩⟩
      intro request member
      obtain ⟨named,shaped,path⟩ := paths request member
      rw [path]
      exact shaped_text clean_p clean_s shaped

theorem spared_template_refused (beyond : List UInt8) (call : Call) (spared : Spared p s) :
    Fills p 0 s beyond sufflen call := by
  obtain ⟨least,most,halts⟩ := spared
  have inside : (p.length+s.length)%2^32 ≤ p.length+s.length := Nat.mod_le _ _
  refine ⟨fun _ _ => ?_,fun least => absurd least (by decide)⟩
  rcases tempfd_cases clean_p clean_s suffix 0 beyond call with ⟨_,outside⟩ | ⟨start,stop,⟨_,_,place⟩,stops,outcome⟩
  · exact absurd ⟨least,most⟩ outside
  · rcases outcome with ⟨_,ran⟩ | ⟨some_counted,_⟩
    · exact ⟨_,ran,rfl,rfl,rfl,Nat.zero_le _⟩
    · have counted := stops.counted start some_counted (Nat.le_refl _)
      rw [Nat.add_zero] at place
      rw [template_front (by omega),place] at counted
      exact absurd counted (halts.resolve_left (by omega))

-- With no X to fill the call must stop where it starts: a name it tried would
-- have overwritten an X of `p`.
theorem refused_spared (refused : tempfd (template p 0 s beyond) sufflen call = some out)
    (kept : out.filetpl = template p 0 s beyond) : Spared p s := by
  have inside : (p.length+s.length)%2^32 ≤ p.length+s.length := Nat.mod_le _ _
  rcases tempfd_cases clean_p clean_s suffix 0 beyond call with ⟨undefined,_⟩ | ⟨start,stop,⟨least,most,place⟩,stops,outcome⟩
  · cases undefined.symm.trans refused
  · rw [Nat.add_zero] at least most place
    refine ⟨least,most,?_⟩
    rw [← place]
    rcases outcome with ⟨none_counted,_⟩ | ⟨some_counted,ran⟩
    · rw [← template_front (n:=0) (s:=s) (by omega),← none_counted]
      exact stops.halts
    · have letters := (attempts_places stops (ran.symm.trans refused)).1 start some_counted (Nat.le_refl _)
      rw [kept] at letters
      exact absurd (stops.counted start some_counted (Nat.le_refl _)) letters

-- A counted range that leaves an X of the run out leaves it an X.
theorem filled_covered (least : 1 ≤ n) (ran : tempfd (template p n s beyond) sufflen call = some out)
    (shaped : Shaped p (s++0 :: beyond) n out.filetpl) : p ≠ [] ∧ p.length+n+s.length < 2^31 := by
  have changed : ∀ i, p.length ≤ i → i < p.length+n → out.filetpl[i]? ≠ (template p n s beyond)[i]? := by
    intro i from_p to_s
    rw [template_run from_p to_s]
    exact shaped_letter shaped from_p to_s
  rcases tempfd_cases clean_p clean_s suffix n beyond call with ⟨undefined,_⟩ | ⟨start,stop,⟨_,_,place⟩,stops,outcome⟩
  · cases undefined.symm.trans ran
  · have below := stops.below
    rcases outcome with ⟨_,refused⟩ | ⟨some_counted,made⟩
    · cases Option.some.inj (ran.symm.trans refused)
      exact absurd rfl (changed p.length (Nat.le_refl _) (by omega))
    · have whole : (p.length+n+s.length)%2^32 ≤ p.length+n+s.length := Nat.mod_le _ _
      have outside := (attempts_places stops (made.symm.trans ran)).2
      constructor
      · rintro rfl
        exact changed 0 (Nat.le_refl _) (by rw [List.length_nil]; omega) (outside 0 (Or.inl (Nat.zero_le _)))
      · by_contra long
        exact changed (p.length+n-1) (by omega) (by omega) (outside _ (Or.inr (by omega)))

end Scanned

theorem template_filled_iff (beyond : List UInt8) (call : Call) (clean_p : 0 ∉ p) (clean_s : 0 ∉ s) (ends : p.getLast? ≠ some 88)
    (suffix : sufflen.toInt = s.length) : Fills p n s beyond sufflen call ↔
      p ≠ [] ∧ p.length+n+s.length < 2^31 ∨ n = 0 ∧ (p = [] ∨ Spared p s) := by
  constructor
  · intro filled
    by_cases none_marked : n = 0
    · subst none_marked
      by_cases empty : p = []
      · exact Or.inr ⟨rfl,Or.inl empty⟩
      · obtain ⟨out,ran,_,_,kept,_⟩ := filled.refuses rfl empty
        exact Or.inr ⟨rfl,Or.inr (refused_spared clean_p clean_s suffix ran kept)⟩
    · obtain ⟨out,ran,shaped,_⟩ := filled.fills (by omega)
      exact Or.inl (filled_covered clean_p clean_s suffix (by omega) ran shaped)
  · rintro (⟨some_p,short⟩ | ⟨rfl,rfl | spared⟩)
    · exact short_template_filled clean_p clean_s suffix beyond call ends some_p short
    · exact ⟨fun _ some_p => absurd rfl some_p,fun least => absurd least (by decide)⟩
    · exact spared_template_refused clean_p clean_s suffix beyond call spared

def takenOnce : Call := ⟨0,0x1000,0,fun i => ⟨7*UInt64.ofNat i,0,if i = 0 then .failed EEXIST else .descriptor 5⟩⟩

-- `abc_XXX.ab` with three characters of suffix; the first name is taken.
theorem taken_name_replaced : Fills [97,98,99,95] 3 [46,97,98] [] 3 takenOnce ∧
    (tempfd (template [97,98,99,95] 3 [46,97,98] []) 3 takenOnce).map (fun out => (out.ret,out.filetpl,out.tried.length)) =
      some (5,[97,98,99,95,76,65,69,46,97,98,0],2) := by
  refine ⟨(template_filled_iff [] takenOnce (by decide) (by decide) (by decide) rfl).mpr (Or.inl ⟨by decide,by decide⟩),?_⟩
  decide +kernel

-- `XXXX.xx` keeps its first X in every name, and `X.xx` has none to fill.
theorem leading_x_kept : ¬ Fills [] 4 [46,120,120] [] 3 takenOnce ∧
    (tempfd (template [] 4 [46,120,120] []) 3 takenOnce).map (fun out => (out.ret,out.filetpl,out.tried.map Request.path)) =
      some (5,[88,73,65,69,46,120,120,0],[[88,66,65,69,46,120,120],[88,73,65,69,46,120,120]]) ∧
    tempfd (template [] 1 [46,120,120] []) 3 takenOnce = some ⟨-1,EINVAL,[88,46,120,120,0],[]⟩ := by
  refine ⟨?_,by decide +kernel,by decide +kernel⟩
  intro filled
  obtain ⟨out,ran,shaped,_⟩ := filled.fills (by decide)
  exact (filled_covered List.not_mem_nil (by decide) rfl (by decide) ran shaped).1 rfl

end Template
end EventLib.TempFile
