import EventLib.DecimalText
import EventLib.LabelledRuns
import Mathlib.Logic.Function.Basic

namespace EventLib.PidFile
open DecimalText LabelledRuns

-- A process and what `getpid` returns in it.
structure Pid where
  value : Nat
  positive : 0 < value
  int : value < 2^31
deriving DecidableEq

def isSpace (c : UInt8) : Bool := c = 32 || (9 ≤ c && c ≤ 13)

-- The conversion of an array without an end of its own: it has no result where
-- nothing in the array stops it, or where the number is no int.
def convert (sign : Int) (rest : List UInt8) : Option Int :=
  let n := sign*value (rest.takeWhile isDigit)
  if rest.all isDigit = false ∧ -2^31 ≤ n ∧ n < 2^31 then some n else none

def atoi (array : List UInt8) : Option Int :=
  match array.dropWhile isSpace with
  | 45::rest => convert (-1) rest
  | 43::rest => convert 1 rest
  | rest => convert 1 rest

-- `tmp` after `fread`.
def tmp (content : List UInt8) : List UInt8 := content.take 32++List.replicate (32-content.length) 0

-- Between two system calls. `inode` is the file a stream was opened on, which
-- need not be the one the name leads to any more.
inductive Place where
  | idle
  | writing (inode : Nat)
  | found
  | reading (inode : Nat)
deriving DecidableEq

-- One pid file. `wrote` lists the processes whose number reached the disk and
-- `results` what `pid_check` returned, each oldest first.
structure System where
  entry : Option Nat
  content : Nat → List UInt8
  next : Nat
  place : Pid → Place
  wrote : List Pid
  results : List (Pid × Int)

def start : System := ⟨none,fun _ => [],0,fun _ => .idle,[],[]⟩

def System.move (s : System) (p : Pid) (place : Place) : System := {s with place:=Function.update s.place p place}
def System.fill (s : System) (inode : Nat) (bytes : List UInt8) : System := {s with content:=Function.update s.content inode bytes}

-- `fopen` and the `write` behind `fclose` of `pid_write`; `access`, `fopen` and
-- `fread` of `pid_check`; `remove`. `pid_write` ignores what `fclose` returns.
inductive Label where
  | openWrite (process : Pid) (granted : Bool)
  | closeWrite (process : Pid) (stored : Bool)
  | access (process : Pid)
  | openRead (process : Pid) (granted : Bool)
  | read (process : Pid)
  | remove

-- The stream writes at its own offset 0: a longer text is not cut.
def overwrite (old text : List UInt8) : List UInt8 := text++old.drop text.length

def System.truncate (s : System) : Nat × System :=
  match s.entry with
  | some inode => (inode,s.fill inode [])
  | none => (s.next,{s.fill s.next [] with entry:=some s.next,next:=s.next+1})

def step (s : System) : Label → Option System
  | .openWrite p granted =>
    if s.place p = .idle then some (if granted then s.truncate.2.move p (.writing s.truncate.1) else s) else none
  | .closeWrite p stored =>
    match s.place p with
    | .writing inode => some (if stored then
        {(s.fill inode (overwrite (s.content inode) (numeral p.value))).move p .idle with wrote:=s.wrote++[p]}
      else s.move p .idle)
    | _ => none
  | .access p =>
    if s.place p = .idle then some (if s.entry.isSome then s.move p .found else {s with results:=s.results++[(p,0)]}) else none
  | .openRead p granted =>
    if s.place p = .found then
      match s.entry,granted with
      | some inode,true => some (s.move p (.reading inode))
      | _,_ => some {s.move p .idle with results:=s.results++[(p,-1)]}
    else none
  | .read p =>
    match s.place p with
    | .reading inode => (atoi (tmp (s.content inode))).map fun pid => {s.move p .idle with results:=s.results++[(p,pid)]}
    | _ => none
  | .remove => some {s with entry:=none}

-- What is in the file when the number arrives is not longer than the number.
def Fits (s : System) (p : Pid) : Place → Prop
  | .writing inode => (s.content inode).length ≤ (numeral p.value).length
  | _ => True

def Covers (s : System) : Label → Prop
  | .closeWrite p true => Fits s p (s.place p)
  | _ => True

instance : ∀ place, Decidable (Fits s p place)
  | .writing _ => inferInstanceAs (Decidable (_ ≤ _))
  | .idle => isTrue trivial
  | .found => isTrue trivial
  | .reading _ => isTrue trivial

instance (s : System) : ∀ label, Decidable (Covers s label)
  | .closeWrite _ true => inferInstanceAs (Decidable (Fits ..))
  | .closeWrite _ false => isTrue trivial
  | .openWrite _ _ => isTrue trivial
  | .access _ => isTrue trivial
  | .openRead _ _ => isTrue trivial
  | .read _ => isTrue trivial
  | .remove => isTrue trivial

section Conversion
variable {text rest : List UInt8}

theorem digit_plain {c : UInt8} (digit : isDigit c = true) : isSpace c = false ∧ c ≠ 45 ∧ c ≠ 43 := by
  simp only [isDigit,Bool.and_eq_true,decide_eq_true_eq,UInt8.le_iff_toNat_le] at digit
  have least : 48 ≤ c.toNat := digit.1
  have beyond : ∀ d : UInt8, d.toNat < 48 → c ≠ d := by
    intro d small same
    rw [same] at least
    omega
  refine ⟨?_,beyond 45 (by decide),beyond 43 (by decide)⟩
  have high : ¬ c ≤ 13 := by
    rw [UInt8.le_iff_toNat_le]
    exact fun low => absurd (Nat.le_trans least low) (by decide)
  simp [isSpace,beyond 32 (by decide),high]

-- A number with something behind it that is no digit.
theorem atoi_digits (some_digit : text ≠ []) (digits : ∀ c ∈ text, isDigit c = true) (small : value text < 2^31) :
    atoi (text++0::rest) = some (value text : Int) := by
  obtain ⟨c,more,rfl⟩ := List.exists_cons_of_ne_nil some_digit
  obtain ⟨visible,minus,plus⟩ := digit_plain (digits c List.mem_cons_self)
  have kept : (c::more++0::rest).dropWhile isSpace = c::more++0::rest := by
    rw [List.cons_append,List.dropWhile_cons_of_neg (by rw [visible]; decide)]
  have taken : (c::more++0::rest).takeWhile isDigit = c::more := by
    rw [List.takeWhile_append_of_pos digits]
    simp [isDigit]
  have stops : (c::more++0::rest).all isDigit = false := by simp [isDigit]
  have converted : convert 1 (c::more++0::rest) = some (value (c::more) : Int) := by
    rw [convert,taken,stops,if_pos]
    · rw [Int.one_mul]
    · exact ⟨rfl,by omega,by omega⟩
  rw [atoi,kept]
  split
  · rename_i same
    cases same
    exact absurd rfl minus
  · rename_i same
    cases same
    exact absurd rfl plus
  · exact converted

theorem check_digits (some_digit : text ≠ []) (digits : ∀ c ∈ text, isDigit c = true) (short : text.length < 32)
    (small : value text < 2^31) : atoi (tmp text) = some (value text : Int) := by
  obtain ⟨k,room⟩ : ∃ k, 32-text.length = k+1 := ⟨31-text.length,by omega⟩
  rw [tmp,List.take_of_length_le (Nat.le_of_lt short),room,List.replicate_succ]
  exact atoi_digits some_digit digits small

theorem check_empty : atoi (tmp []) = some 0 := rfl

theorem numeral_length (p : Pid) : 0 < (numeral p.value).length ∧ (numeral p.value).length ≤ 10 := by
  have shown : numeral p.value = (Nat.digits 10 p.value).reverse.map character := if_neg (Nat.ne_of_gt p.positive)
  rw [shown,List.length_map,List.length_reverse]
  constructor
  · exact List.length_pos_iff.mpr (Nat.digits_ne_nil_iff_ne_zero.mpr (Nat.ne_of_gt p.positive))
  · rw [Nat.digits_length_le_iff (by decide)]
    exact Nat.lt_trans p.int (by decide)

theorem check_numeral (p : Pid) : atoi (tmp (numeral p.value)) = some (p.value : Int) := by
  have length := numeral_length p
  have read := check_digits (List.length_pos_iff.mp length.1) numeral_digits (by omega) (by rw [value_numeral]; exact p.int)
  rwa [value_numeral] at read

end Conversion

section Runs
variable {s next last : System} {label : Label} {labels : List Label}

-- A file holds nothing or one number that was written, and so do the results.
structure Truthful (s : System) : Prop where
  files : ∀ inode, s.content inode = [] ∨ ∃ p ∈ s.wrote, s.content inode = numeral p.value
  answers : ∀ result ∈ s.results, result.2 = 0 ∨ result.2 = -1 ∨ ∃ p ∈ s.wrote, result.2 = p.value

theorem Truthful.fill (truthful : Truthful s) (inode : Nat) {bytes : List UInt8}
    (sound : bytes = [] ∨ ∃ p ∈ s.wrote, bytes = numeral p.value) : Truthful (s.fill inode bytes) := by
  refine ⟨?_,truthful.answers⟩
  intro other
  by_cases same : other = inode
  · subst same
    simpa only [System.fill,Function.update_self] using sound
  · simpa only [System.fill,Function.update_of_ne same] using truthful.files other

theorem Truthful.answer (truthful : Truthful s) (p : Pid) {answer : Int}
    (sound : answer = 0 ∨ answer = -1 ∨ ∃ p ∈ s.wrote, answer = p.value) :
    Truthful {s with results:=s.results++[(p,answer)]} := by
  refine ⟨truthful.files,?_⟩
  intro result member
  rcases List.mem_append.mp member with old | new
  · exact truthful.answers result old
  · rw [List.mem_singleton.mp new]
    exact sound

theorem Truthful.move (truthful : Truthful s) (p : Pid) (place : Place) : Truthful (s.move p place) :=
  ⟨truthful.files,truthful.answers⟩

theorem Truthful.record (truthful : Truthful s) (p : Pid) : Truthful {s with wrote:=s.wrote++[p]} := by
  refine ⟨?_,?_⟩
  · intro inode
    rcases truthful.files inode with empty | ⟨q,member,holds⟩
    · exact Or.inl empty
    · exact Or.inr ⟨q,List.mem_append_left _ member,holds⟩
  · intro result member
    rcases truthful.answers result member with zero | missing | ⟨q,inside,holds⟩
    · exact Or.inl zero
    · exact Or.inr (Or.inl missing)
    · exact Or.inr (Or.inr ⟨q,List.mem_append_left _ inside,holds⟩)

theorem step_truthful (truthful : Truthful s) (covers : Covers s label) (ran : step s label = some next) : Truthful next := by
  cases label with
  | openWrite p granted =>
    obtain ⟨_,same⟩ := Option.ite_none_right_eq_some.mp ran
    cases Option.some.inj same
    cases granted with
    | false => exact truthful
    | true =>
      refine Truthful.move ?_ p _
      unfold System.truncate
      split
      · exact truthful.fill _ (Or.inl rfl)
      · exact ⟨(truthful.fill _ (Or.inl rfl)).files,truthful.answers⟩
  | closeWrite p stored =>
    simp only [step] at ran
    split at ran
    · rename_i inode here
      cases Option.some.inj ran
      cases stored with
      | false => exact truthful.move p _
      | true =>
        have fits : Fits s p (.writing inode) := here ▸ covers
        have whole : overwrite (s.content inode) (numeral p.value) = numeral p.value := by
          rw [overwrite,List.drop_eq_nil_iff.mpr fits,List.append_nil]
        have recorded := (truthful.record p).fill inode (Or.inr ⟨p,List.mem_append_right _ List.mem_cons_self,whole⟩)
        exact ⟨recorded.files,recorded.answers⟩
    · cases ran
  | access p =>
    obtain ⟨_,same⟩ := Option.ite_none_right_eq_some.mp ran
    cases Option.some.inj same
    split
    · exact truthful.move p _
    · exact truthful.answer p (Or.inl rfl)
  | openRead p granted =>
    obtain ⟨_,ran⟩ := Option.ite_none_right_eq_some.mp ran
    split at ran
    · cases Option.some.inj ran
      exact truthful.move p _
    · cases Option.some.inj ran
      exact (truthful.move p _).answer p (Or.inr (Or.inl rfl))
  | read p =>
    simp only [step] at ran
    split at ran
    · rename_i inode here
      obtain ⟨pid,answered,rfl⟩ := Option.map_eq_some_iff.mp ran
      refine (truthful.move p _).answer p ?_
      rcases truthful.files inode with empty | ⟨q,member,holds⟩
      · rw [empty,check_empty] at answered
        exact Or.inl (Option.some.inj answered).symm
      · rw [holds,check_numeral] at answered
        exact Or.inr (Or.inr ⟨q,member,(Option.some.inj answered).symm⟩)
    · cases ran
  | remove =>
    cases Option.some.inj ran
    exact ⟨truthful.files,truthful.answers⟩

-- The second number with the end of the first one behind it.
def mixture (p q : Pid) : Nat :=
  q.value*10^((numeral p.value).length-(numeral q.value).length)+p.value%10^((numeral p.value).length-(numeral q.value).length)

def System.store (s : System) (p : Pid) (inode : Nat) : System :=
  {(s.fill inode (overwrite (s.content inode) (numeral p.value))).move p .idle with wrote:=s.wrote++[p]}

theorem close_step {p : Pid} {inode : Nat} (here : s.place p = .writing inode) :
    step s (.closeWrite p true) = some (s.store p inode) := by
  simp only [step,here,if_true]
  rfl

-- The three calls of `pid_check`, undisturbed.
theorem check_undisturbed {inode : Nat} {r : Pid} {pid : Int} (entry : s.entry = some inode) (idle : s.place r = .idle)
    (reads : atoi (tmp (s.content inode)) = some pid) :
    ∃ last, exec step s [.access r,.openRead r true,.read r] = some last ∧ last.results = s.results++[(r,pid)] := by
  have accessed : step s (.access r) = some (s.move r .found) := by simp only [step,if_pos idle,entry,Option.isSome_some,if_true]
  have there : (s.move r .found).place r = .found := Function.update_self ..
  have opened : step (s.move r .found) (.openRead r true) = some ((s.move r .found).move r (.reading inode)) := by
    simp only [step,if_pos there]
    rw [show (s.move r .found).entry = some inode from entry]
  have reading : ((s.move r .found).move r (.reading inode)).place r = .reading inode := Function.update_self ..
  let last : System := {((s.move r .found).move r (.reading inode)).move r .idle with results:=s.results++[(r,pid)]}
  have answered : step ((s.move r .found).move r (.reading inode)) (.read r) = some last := by
    simp only [step,reading]
    exact congrArg (Option.map _) reads
  exact ⟨last,exec_cons.mpr ⟨_,accessed,exec_cons.mpr ⟨_,opened,exec_cons.mpr ⟨_,answered,rfl⟩⟩⟩,rfl⟩

theorem mixed_content (p q : Pid) : value (overwrite (numeral p.value) (numeral q.value)) = mixture p q ∧
    (∀ c ∈ overwrite (numeral p.value) (numeral q.value), isDigit c = true) := by
  constructor
  · rw [overwrite,value_append,value_drop numeral_digits,value_numeral,value_numeral,List.length_drop]
    rfl
  · intro c member
    rcases List.mem_append.mp member with own | rest
    · exact numeral_digits c own
    · exact numeral_digits c (List.mem_of_mem_drop rest)

-- Two processes with the file open at once: whoever is last leaves the end of
-- a longer number behind their own.
theorem overlapping_writers_mix {inode : Nat} {p q r : Pid} (entry : s.entry = some inode) (first : s.place p = .writing inode)
    (second : s.place q = .writing inode) (apart : q ≠ p) (reader : s.place r = .idle) (truncated : s.content inode = [])
    (int : mixture p q < 2^31) :
    ∃ last, exec step s [.closeWrite p true,.closeWrite q true,.access r,.openRead r true,.read r] = some last ∧
      last.results = s.results++[(r,(mixture p q : Int))] := by
  have other_p : r ≠ p := fun same => by rw [same,first] at reader; cases reader
  have other_q : r ≠ q := fun same => by rw [same,second] at reader; cases reader
  have still : (s.store p inode).place q = .writing inode := (Function.update_of_ne apart ..).trans second
  have idle : ((s.store p inode).store q inode).place r = .idle :=
    (Function.update_of_ne other_q ..).trans ((Function.update_of_ne other_p ..).trans reader)
  have once : (s.store p inode).content inode = numeral p.value := by
    show Function.update s.content inode _ inode = _
    rw [Function.update_self,truncated,overwrite,List.drop_nil,List.append_nil]
  have twice : ((s.store p inode).store q inode).content inode = overwrite (numeral p.value) (numeral q.value) := by
    show Function.update (s.store p inode).content inode _ inode = _
    rw [Function.update_self,once]
  obtain ⟨mixed,digits⟩ := mixed_content p q
  have reads : atoi (tmp (((s.store p inode).store q inode).content inode)) = some (mixture p q : Int) := by
    have long := numeral_length p
    have short := numeral_length q
    have length : (overwrite (numeral p.value) (numeral q.value)).length ≤ 20 := by
      rw [overwrite,List.length_append,List.length_drop]
      omega
    have some_digit : overwrite (numeral p.value) (numeral q.value) ≠ [] :=
      List.append_ne_nil_of_left_ne_nil (List.length_pos_iff.mp short.1) _
    rw [twice,check_digits some_digit digits (by omega) (by rw [mixed]; exact int),mixed]
  obtain ⟨last,ran,results⟩ := check_undisturbed (s:=(s.store p inode).store q inode) entry idle reads
  exact ⟨last,exec_cons.mpr ⟨_,close_step first,exec_cons.mpr ⟨_,close_step still,ran⟩⟩,results⟩

end Runs

def seven : Pid := ⟨7,by decide,by decide⟩
def twelve : Pid := ⟨12,by decide,by decide⟩

-- One process writes, the other checks, and checks again after a removal.
def orderly : List Label :=
  [.openWrite seven true,.closeWrite seven true,.access twelve,.openRead twelve true,.read twelve,.remove,.access twelve]

def nine : Pid := ⟨9,by decide,by decide⟩

-- Both have the file open and 7 arrives on top of 12: there is no process 72.
theorem seven_over_twelve : ∃ s last, exec step start [.openWrite twelve true,.openWrite seven true] = some s ∧
    exec step s [.closeWrite twelve true,.closeWrite seven true,.access nine,.openRead nine true,.read nine] = some last ∧
    last.results = [(nine,72)] := by
  let s : System := ((start.truncate.2.move twelve (.writing 0)).truncate.2).move seven (.writing 0)
  have opened : exec step start [.openWrite twelve true,.openWrite seven true] = some s := rfl
  have mixed : mixture twelve seven = 72 := by decide
  obtain ⟨last,ran,results⟩ := overlapping_writers_mix (s:=s) (r:=nine) rfl (show s.place twelve = .writing 0 by decide)
    (show s.place seven = .writing 0 by decide) (by decide) (by decide) rfl (by rw [mixed]; decide)
  rw [mixed] at results
  exact ⟨s,last,opened,ran,results⟩

end EventLib.PidFile
