import EventLib.Khlist
import EventLib.LabelledRuns
import Mathlib.Data.Finset.Card
import Mathlib.Data.Set.Function

namespace EventLib.HmapDictionary
open LinearProbe Hmap Khlist LabelledRuns

inductive Call (υ : Type) where
  | set (str : Key) (ud : Option υ) (mallocs : List (Nat → Slot υ))
  | get (str : Key)

variable {υ : Type}

def Call.key : Call υ → Key
  | .set str _ _ => str
  | .get str => str

-- `firsts` keeps position and user data of the set that took each key in.
structure Session (υ : Type) where
  table : Khlist υ
  firsts : Key → Option (Nat × Option υ)

def start (hl : Khlist υ) : Session υ := ⟨hl,fun _ => none⟩

def record (s : Session υ) (str : Key) (ud : Option υ) (ret : Nat) : Key → Option (Nat × Option υ) :=
  if ret = minusOne then s.firsts else Function.update s.firsts str (some (ret,ud))

def step (s : Session υ) : Call υ → Option (Session υ)
  | .set str ud mallocs => (khlistSet s.table str ud mallocs).map fun (ret,hl) => ⟨hl,record s str ud ret⟩
  | .get str => (khlistGet s.table str).map fun _ => s

-- An unchanged size is a table that was not expanded.
def Answers (s : Session υ) : Call υ → Prop
  | .set str ud mallocs =>
    match s.firsts str with
    | none => ∃ p hl, khlistSet s.table str ud mallocs = some (p,hl) ∧ p ≠ minusOne ∧ hl.size = s.table.size
    | some _ => khlistSet s.table str ud mallocs = some (minusOne,s.table)
  | .get str =>
    match s.firsts str with
    | none => khlistGet s.table str = some (minusOne,none)
    | some (p,ud) => khlistGet s.table str = some (p,some ud) ∧ khlistUd s.table p = some ud

def pairOf (str : Key) : UInt32 × UInt32 := (hashesOf str).pair

structure Filed (keys : Set Key) (s : Session υ) : Prop where
  positive : 0 < s.table.size
  filed : ∀ str p ud, s.firsts str = some (p,ud) →
    s.table.Stores (hashesOf str) p ∧ s.table.OnPath (hashesOf str) p ∧ (s.table.slot p).ud = ud
  owned : ∀ p, s.table.Live p → ∃ str ud, s.firsts str = some (p,ud)
  known : ∀ str p ud, s.firsts str = some (p,ud) → str ∈ keys

section Files
variable {keys : Set Key} {s next : Session υ}

theorem Filed.owner (filed : Filed keys s) (separated : Set.InjOn pairOf keys) (member : str ∈ keys)
    (stores : s.table.Stores (hashesOf str) p) : ∃ ud, s.firsts str = some (p,ud) := by
  obtain ⟨other,ud,taken⟩ := filed.owned p stores.1
  have pairs : pairOf other = pairOf str := (filed.filed other p ud taken).1.2.symm.trans stores.2
  exact ⟨ud,separated (filed.known other p ud taken) member pairs ▸ taken⟩

theorem Filed.distinct (filed : Filed keys s) (separated : Set.InjOn pairOf keys) : s.table.Distinct := by
  intro p q left right same
  obtain ⟨str,ud,taken⟩ := filed.owned q right
  have stores := (filed.filed str q ud taken).1
  obtain ⟨ud',also⟩ := filed.owner separated (filed.known str q ud taken) ⟨left,same.trans stores.2⟩
  exact (Prod.mk.inj (Option.some.inj (also.symm.trans taken))).1

theorem Filed.get (filed : Filed keys s) (separated : Set.InjOn pairOf keys) (taken : s.firsts str = some (p,ud)) :
    khlistGet s.table str = some (p,some ud) := by
  obtain ⟨stores,path,data⟩ := filed.filed str p ud taken
  rw [get_stored (filed.distinct separated) stores path,data]

theorem Filed.absent (filed : Filed keys s) (separated : Set.InjOn pairOf keys) (member : str ∈ keys)
    (fresh : s.firsts str = none) (p : Nat) : ¬ s.table.Stores (hashesOf str) p := by
  intro stores
  obtain ⟨ud,taken⟩ := filed.owner separated member stores
  rw [fresh] at taken
  cases taken

theorem Filed.get_absent (filed : Filed keys s) (separated : Set.InjOn pairOf keys) (member : str ∈ keys)
    (fresh : s.firsts str = none) : khlistGet s.table str = some (minusOne,none) :=
  get_missed filed.positive fun q stores => absurd stores (filed.absent separated member fresh q)

theorem refused_unchanged : (⟨s.table,record s str ud minusOne⟩ : Session υ) = s := by
  rw [record,if_pos rfl]

theorem record_here (returned : p ≠ minusOne) : record s str ud p str = some (p,ud) := by
  rw [record,if_neg returned,Function.update_self]

theorem record_other (away : other ≠ str) : record s str ud p other = s.firsts other := by
  unfold record
  split
  · rfl
  · exact Function.update_of_ne away ..

theorem Filed.placed (filed : Filed keys s) (member : str ∈ keys) (fresh : s.firsts str = none) (bound : p < s.table.size)
    (vacant : ¬ s.table.Live p) (path : s.table.OnPath (hashesOf str) p) :
    Filed keys ⟨s.table.put p (occupy (hashesOf str) ud),record s str ud p⟩ := by
  have here : record s str ud p str = some (p,ud) := record_here (position_word bound)
  refine ⟨filed.positive,?_,?_,?_⟩
  · intro other q data taken
    by_cases same : other = str
    · subst same
      cases Option.some.inj (here.symm.trans taken)
      exact ⟨occupy_stores bound,path.occupied bound,congrArg Slot.ud (slot_put_here bound)⟩
    · obtain ⟨stores,reach,ud⟩ := filed.filed other q data ((record_other same).symm.trans taken)
      obtain ⟨kept,slot⟩ := occupy_stores_other vacant stores
      exact ⟨kept,reach.occupied bound,(congrArg Slot.ud slot).trans ud⟩
  · intro q occupied
    rcases (occupy_live_iff bound).mp occupied with rfl | old
    · exact ⟨str,ud,here⟩
    · obtain ⟨other,data,taken⟩ := filed.owned q old
      have away : other ≠ str := fun same => by rw [same,fresh] at taken; cases taken
      exact ⟨other,data,(record_other away).trans taken⟩
  · intro other q data taken
    by_cases same : other = str
    · exact same ▸ member
    · exact filed.known other q data ((record_other same).symm.trans taken)

inductive SetFiled (keys : Set Key) (s : Session υ) (str : Key) (ud : Option υ) (full : Option (Nat × Khlist υ)) :
    Option (Nat × Khlist υ) → Prop where
  | present : s.firsts str = some held → SetFiled keys s str ud full (some (minusOne,s.table))
  | filed : s.firsts str = none → p < s.table.size →
      Filed keys ⟨s.table.put p (occupy (hashesOf str) ud),record s str ud p⟩ →
      SetFiled keys s str ud full (some (p,s.table.put p (occupy (hashesOf str) ud)))
  | full : s.firsts str = none → (∀ p < s.table.size, s.table.Live p) → result = full → SetFiled keys s str ud full result

theorem place_filed (filed : Filed keys s) (separated : Set.InjOn pairOf keys) (member : str ∈ keys) (ud : Option υ)
    (full : Option (Nat × Khlist υ)) : SetFiled keys s str ud full (place s.table (hashesOf str) ud full) := by
  have spec := place_spec filed.positive (hashesOf str) ud full
  generalize place s.table (hashesOf str) ud full = result at spec ⊢
  cases spec with
  | present stores path =>
    obtain ⟨data,taken⟩ := filed.owner separated member stores
    exact .present taken
  | placed bound vacant path cuts =>
    have fresh : s.firsts str = none := by
      cases held : s.firsts str with
      | none => rfl
      | some entry =>
        obtain ⟨stores,reach,_⟩ := filed.filed str entry.1 entry.2 held
        exact absurd reach (cuts _ stores)
    exact .filed fresh bound (filed.placed member fresh bound vacant path)
  | full filled same =>
    have fresh : s.firsts str = none := by
      cases held : s.firsts str with
      | none => rfl
      | some entry =>
        obtain ⟨stores,_,_⟩ := filed.filed str entry.1 entry.2 held
        exact absurd stores.2 (filled entry.1 stores.1.lt).2
    exact .full fresh (fun p bound => (filled p bound).1) same

-- A pass keeps the table filed if whatever follows a wrap does.
theorem pass_filed {ud : Option υ} (filed : Filed keys s) (separated : Set.InjOn pairOf keys) (member : str ∈ keys)
    (ran : place s.table (hashesOf str) ud full = some (ret,after))
    (wrapped : s.firsts str = none → (∀ p < s.table.size, s.table.Live p) → full = some (ret,after) →
      Filed keys ⟨after,record s str ud ret⟩) : Filed keys ⟨after,record s str ud ret⟩ := by
  have spec := place_filed filed separated member ud full
  rw [ran] at spec
  cases spec with
  | present held =>
    rw [refused_unchanged]
    exact filed
  | filed fresh bound done => exact done
  | full fresh filled result => exact wrapped fresh filled result.symm

theorem start_filed {sz : UInt32} {header block : Bool} {hl : Khlist υ} (keys : Set Key)
    (made : khlistCreate sz header block = some hl) (nonzero : sz ≠ 0) : Filed keys (start hl) where
  positive := create_positive made nonzero
  filed := fun _ _ _ taken => absurd taken (Option.some_ne_none _).symm
  owned := fun p occupied => absurd occupied ((create_spec made).2 p)
  known := fun _ _ _ taken => absurd taken (Option.some_ne_none _).symm

end Files

-- Each live slot belongs to another key, so a key that is not filed yet leaves
-- one of `keys.card` slots free.
theorem room_left {keys : Finset Key} {s : Session υ} (filed : Filed ↑keys s) (member : str ∈ keys)
    (fresh : s.firsts str = none) (few : keys.card ≤ s.table.size) : ∃ p < s.table.size, ¬ s.table.Live p := by
  by_contra full
  have live : ∀ p < s.table.size, s.table.Live p := by
    intro p bound
    by_contra vacant
    exact full ⟨p,bound,vacant⟩
  choose! owner data taken using fun p (bound : p < s.table.size) => filed.owned p (live p bound)
  have others : (Finset.range s.table.size).card ≤ (keys.erase str).card := by
    refine Finset.card_le_card_of_injOn owner ?_ ?_
    · intro p inside
      have bound := Finset.mem_range.mp inside
      refine Finset.mem_erase.mpr ⟨?_,filed.known _ _ _ (taken p bound)⟩
      intro same
      have held := taken p bound
      rw [same,fresh] at held
      cases held
    · intro p left q right same
      have first := taken p (Finset.mem_range.mp left)
      have second := taken q (Finset.mem_range.mp right)
      rw [same] at first
      exact (Prod.mk.inj (Option.some.inj (first.symm.trans second))).1
  rw [Finset.card_range,Finset.card_erase_of_mem member] at others
  have some_key := Finset.card_pos.mpr ⟨str,member⟩
  omega

structure Spacious (keys : Finset Key) (s : Session υ) : Prop where
  filed : Filed ↑keys s
  room : keys.card ≤ s.table.size

theorem step_spacious {keys : Finset Key} {s : Session υ} {call : Call υ} (separated : Set.InjOn pairOf keys)
    (spacious : Spacious keys s) (member : call.key ∈ keys) :
    Answers s call ∧ ∃ next, step s call = some next ∧ Spacious keys next := by
  obtain ⟨filed,room⟩ := spacious
  cases call with
  | get str =>
    have used : str ∈ keys := member
    cases held : s.firsts str with
    | none =>
      have missed := filed.get_absent separated used held
      simp only [Answers,held]
      exact ⟨missed,s,by rw [step,missed]; rfl,filed,room⟩
    | some entry =>
      obtain ⟨p,ud⟩ := entry
      have found := filed.get separated held
      obtain ⟨stores,_,data⟩ := filed.filed str p ud held
      simp only [Answers,held]
      exact ⟨⟨found,by rw [ud_slot stores.1.lt,data]⟩,s,by rw [step,found]; rfl,filed,room⟩
  | set str ud mallocs =>
    have used : str ∈ keys := member
    obtain ⟨full,same,_⟩ := set_place filed.positive str ud mallocs
    have spec := place_filed filed separated used ud full
    rw [← same] at spec
    simp only [Answers,step]
    generalize khlistSet s.table str ud mallocs = result at spec ⊢
    cases spec with
    | present held =>
      rw [held]
      exact ⟨rfl,s,congrArg some refused_unchanged,filed,room⟩
    | filed fresh bound after =>
      rw [fresh]
      exact ⟨⟨_,_,rfl,position_word bound,rfl⟩,_,rfl,after,room⟩
    | full fresh filled _ =>
      obtain ⟨p,bound,vacant⟩ := room_left filed used fresh room
      exact absurd (filled p bound) vacant

theorem insert_only_dictionary {sz : UInt32} {header block : Bool} {hl : Khlist υ} {keys : Finset Key}
    {calls : List (Call υ)} (made : khlistCreate sz header block = some hl) (nonzero : sz ≠ 0)
    (few : keys.card ≤ sz.toNat) (separated : Set.InjOn pairOf keys) (uses : ∀ call ∈ calls, call.key ∈ keys) :
    Along step Answers (start hl) calls ∧ ∃ last, exec step (start hl) calls = some last := by
  have guarded : Along step (fun _ call => call.key ∈ keys) (start hl) calls := along_of_forall uses
  have begin : Spacious keys (start hl) := by
    refine ⟨start_filed ↑keys made nonzero,?_⟩
    rw [start,(create_spec made).1]
    exact few
  constructor
  · refine along_guarded ?_ ?_ begin guarded
    · intro s call next spacious member ran
      obtain ⟨_,other,ran',after⟩ := step_spacious separated spacious member
      cases Option.some.inj (ran.symm.trans ran')
      exact after
    · intro s call spacious member
      exact (step_spacious separated spacious member).1
  · obtain ⟨last,ran,_⟩ := exec_total (fun s call spacious member => (step_spacious separated spacious member).2) begin guarded
    exact ⟨last,ran⟩

theorem pair_word : 2 < 2^32 := by decide

-- `a` and `b` share the home slot 1 of a table of two, so `b` wraps to slot 0.
def keyA : Key := [97]
def keyB : Key := [98]
def pairTable : Khlist Nat := ⟨2,[cleared,cleared],rfl,pair_word⟩
def pairCalls : List (Call Nat) := [.set keyA (some 1) [],.get keyB,.set keyB (some 2) [],.set keyA (some 3) [],.get keyA,.get keyB]

theorem a_hashes : hashesOf keyA = ⟨574884075,0x8bb369ca,0x1d93cc30⟩ := by decide +kernel

theorem b_hashes : hashesOf keyB = ⟨314181305,0xccb33eff,0xa2f56b8c⟩ := by decide +kernel

theorem separated_of_apart {keys : Finset Key} (apart : ∀ x ∈ keys, ∀ y ∈ keys, pairOf x = pairOf y → x = y) :
    Set.InjOn pairOf (keys : Set Key) := by
  intro x left y right same
  exact apart x left y right same

theorem pair_separated : Set.InjOn pairOf (({keyA,keyB} : Finset Key) : Set Key) :=
  separated_of_apart (by decide +kernel)

theorem pair_calls_answered : Along step Answers (start pairTable) pairCalls ∧
    ∃ last, exec step (start pairTable) pairCalls = some last := by
  have made : khlistCreate 2 true true = some pairTable := rfl
  have uses : ∀ call ∈ pairCalls, call.key ∈ ({keyA,keyB} : Finset Key) := by decide
  exact insert_only_dictionary made (by decide) (by decide) pair_separated uses

end EventLib.HmapDictionary
