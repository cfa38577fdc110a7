import EventLib.LinearProbe
import Mathlib.Data.List.GetD

namespace EventLib.Hmap
open LinearProbe

def HASH_OFFSET : UInt32 := 0
def HASH_A : UInt32 := 1
def HASH_B : UInt32 := 2

def nextSeed (seed : UInt32) : UInt32 := (seed*125+3) % 0x2AAAAB

def store (table : Nat → UInt32) (idx : Nat) (value : UInt32) : Nat → UInt32 :=
  fun i => if i = idx then value else table i

-- The inner loop of `_init_crypt_table` with `5-i` rounds behind it.
def fillColumn : Nat → UInt32 → Nat → (Nat → UInt32) → UInt32 × (Nat → UInt32)
  | 0,seed,_,table => (seed,table)
  | i+1,seed,idx2,table =>
    let first := nextSeed seed
    let second := nextSeed first
    fillColumn i second (idx2+0x100) (store table idx2 (((first &&& 0xFFFF) <<< 0x10) ||| (second &&& 0xFFFF)))

def fillColumns : Nat → Nat → UInt32 → (Nat → UInt32) → Nat → UInt32
  | 0,_,_,table => table
  | count+1,idx1,seed,table =>
    let filled := fillColumn 5 seed idx1 table
    fillColumns count (idx1+1) filled.1 filled.2

-- The static array starts zeroed; the loops fill all its 0x500 entries.
def cryptTable : Nat → UInt32 := fillColumns 0x100 0 0x00100001 fun _ => 0

-- The bytes of a C string up to its terminator.
abbrev Key := List UInt8

def toupper (c : UInt8) : UInt8 := if 97 ≤ c ∧ c ≤ 122 then c-32 else c

def hashLoop (type : UInt32) : Key → UInt32 → UInt32 → UInt32
  | [],seed1,_ => seed1
  | c::key,seed1,seed2 =>
    if c = 0 then seed1 else
    let ch := (toupper c).toUInt32
    let mixed := cryptTable ((type <<< 8)+ch).toNat ^^^ (seed1+seed2)
    hashLoop type key mixed (ch+mixed+seed2+(seed2 <<< 5)+3)

def hashString (str : Key) (type : UInt32) : UInt32 := hashLoop type str 0x7FED7FED 0xEEEEEEEE

structure Hashes where
  hash : UInt32
  hasha : UInt32
  hashb : UInt32
deriving DecidableEq

def hashesOf (str : Key) : Hashes := ⟨hashString str HASH_OFFSET,hashString str HASH_A,hashString str HASH_B⟩

def Hashes.pair (h : Hashes) : UInt32 × UInt32 := (h.hasha,h.hashb)

structure Slot (υ : Type) where
  hasha : UInt32
  hashb : UInt32
  exist : UInt8
  ud : Option υ
deriving DecidableEq

variable {υ : Type}

def cleared : Slot υ := ⟨0xFFFFFFFF,0xFFFFFFFF,0,none⟩

-- Positions are smaller than `size`, so the unsigned arithmetic on them is
-- exact and they are plain numbers here.
structure Khlist (υ : Type) where
  size : Nat
  hashT : List (Slot υ)
  block : hashT.length = size
  word : size < 2^32
deriving DecidableEq

-- `(unsigned)-1`
def minusOne : Nat := 2^32-1

-- No table comes back for a NULL header. A NULL slot array is written through,
-- and `int i` overflows unless `sz` is at most INT_MAX.
def khlistCreate (sz : UInt32) (header table : Bool) : Option (Khlist υ) :=
  if small : header = true ∧ table = true ∧ sz.toNat < 2^31 then
    some ⟨sz.toNat,List.replicate sz.toNat cleared,List.length_replicate,by omega⟩
  else none

namespace Khlist

-- Every index formed below is a remainder modulo `size`: the default is not read.
def slot (hl : Khlist υ) (pos : Nat) : Slot υ := hl.hashT.getD pos cleared

def put (hl : Khlist υ) (pos : Nat) (slot : Slot υ) : Khlist υ :=
  {hl with hashT:=hl.hashT.set pos slot,block:=List.length_set.trans hl.block}

def Live (hl : Khlist υ) (pos : Nat) : Prop := (hl.slot pos).exist = 1
def pairAt (hl : Khlist υ) (pos : Nat) : UInt32 × UInt32 := ((hl.slot pos).hasha,(hl.slot pos).hashb)
def Holds (hl : Khlist υ) (pair : UInt32 × UInt32) (pos : Nat) : Prop := hl.pairAt pos = pair

instance (hl : Khlist υ) : DecidablePred hl.Live := fun pos => inferInstanceAs (Decidable ((hl.slot pos).exist = 1))
instance (hl : Khlist υ) (pair : UInt32 × UInt32) : DecidablePred (hl.Holds pair) :=
  fun pos => inferInstanceAs (Decidable (hl.pairAt pos = pair))

end Khlist

def home (size : Nat) (h : Hashes) : Nat := h.hash.toNat % size

-- The loop that get, set and del share. A remainder by a size of 0 is undefined.
def probe (hl : Khlist υ) (h : Hashes) : Option Outcome :=
  if hl.size = 0 then none else scan hl.size hl.Live (hl.Holds h.pair) (home hl.size h) hl.size (home hl.size h)

-- The second component is what is stored through `pud`, if anything is.
def khlistGet (hl : Khlist υ) (str : Key) : Option (Nat × Option (Option υ)) :=
  (probe hl (hashesOf str)).map fun
    | .found npos => (npos,some (hl.slot npos).ud)
    | .empty _ => (minusOne,none)
    | .wrapped => (minusOne,none)

-- `fresh` is the memory malloc returned; the copy loop fills its lower half.
def expand (hl : Khlist υ) (fresh : Nat → Slot υ) : Option (Khlist υ) :=
  if small : hl.size < 2^31 then
    some ⟨hl.size*2,hl.hashT++(List.range hl.size).map fun i => fresh (hl.size+i),
      by rw [List.length_append,List.length_map,List.length_range,hl.block]; omega,by omega⟩
  else none

def occupy (h : Hashes) (ud : Option υ) : Slot υ := ⟨h.hasha,h.hashb,1,ud⟩

-- One pass of `khlist_set`; `full` is what happens when the loop wraps.
def place (hl : Khlist υ) (h : Hashes) (ud : Option υ) (full : Option (Nat × Khlist υ)) : Option (Nat × Khlist υ) :=
  (probe hl h).bind fun
    | .found _ => some (minusOne,hl)
    | .empty npos => some (npos,hl.put npos (occupy h ud))
    | .wrapped => full

-- The list holds the blocks the allocator hands out before it fails.
def khlistSet : Khlist υ → Key → Option υ → List (Nat → Slot υ) → Option (Nat × Khlist υ)
  | hl,str,ud,[] => place hl (hashesOf str) ud (some (minusOne,hl))
  | hl,str,ud,fresh::mallocs =>
    place hl (hashesOf str) ud ((expand hl fresh).bind fun grown => khlistSet grown str ud mallocs)

def khlistDel (hl : Khlist υ) (str : Key) : Option (Nat × Option (Option υ) × Khlist υ) :=
  (probe hl (hashesOf str)).map fun
    | .found npos => (npos,some (hl.slot npos).ud,hl.put npos cleared)
    | .empty npos => (npos,some (hl.slot npos).ud,hl.put npos cleared)
    | .wrapped => (minusOne,none,hl)

def khlistUd (hl : Khlist υ) (pos : Nat) : Option (Option υ) := hl.hashT[pos]?.map Slot.ud

theorem home_lt {size : Nat} (positive : 0 < size) (h : Hashes) : home size h < size := Nat.mod_lt _ positive

namespace Khlist
variable {hl : Khlist υ}

theorem slot_put_here {x : Slot υ} (bound : p < hl.size) : (hl.put p x).slot p = x := by
  rw [← hl.block] at bound
  simp [slot,put,bound]

theorem slot_put_other {x : Slot υ} (away : q ≠ p) : (hl.put p x).slot q = hl.slot q := by
  simp [slot,put,List.getD_eq_getElem?_getD,List.getElem?_set_ne (Ne.symm away)]

theorem put_same {x : Slot υ} (bound : p < hl.size) (same : hl.slot p = x) : hl.put p x = hl := by
  rw [← hl.block] at bound
  have stored : hl.hashT[p] = x := by simpa [slot,bound] using same
  have unchanged : hl.hashT.set p x = hl.hashT := by rw [← stored,List.set_getElem_self]
  simp only [put,unchanged]

theorem Live.lt (occupied : hl.Live p) : p < hl.size := by
  by_contra beyond
  rw [← hl.block] at beyond
  have missing : hl.slot p = cleared := by
    rw [slot,List.getD_eq_getElem?_getD,List.getElem?_eq_none (by omega),Option.getD_none]
  rw [Live,missing] at occupied
  cases occupied

theorem ud_slot (bound : p < hl.size) : khlistUd hl p = some (hl.slot p).ud := by
  rw [← hl.block] at bound
  simp [khlistUd,slot,bound]

theorem create_spec {sz : UInt32} {header table : Bool} (made : khlistCreate sz header table = some hl) :
    hl.size = sz.toNat ∧ ∀ p, ¬ hl.Live p := by
  unfold khlistCreate at made
  split at made
  · cases Option.some.inj made
    refine ⟨rfl,?_⟩
    intro p occupied
    have bound : p < sz.toNat := occupied.lt
    simp [Live,slot,bound,cleared] at occupied
  · cases made

theorem create_positive {sz : UInt32} {header table : Bool} (made : khlistCreate sz header table = some hl)
    (nonzero : sz ≠ 0) : 0 < hl.size := by
  rw [(create_spec made).1,Nat.pos_iff_ne_zero]
  intro zero
  exact nonzero (UInt32.toNat_inj.mp zero)

def Stores (hl : Khlist υ) (h : Hashes) (p : Nat) : Prop := hl.Live p ∧ hl.Holds h.pair p

instance (hl : Khlist υ) (h : Hashes) : DecidablePred (hl.Stores h) := fun _ => inferInstanceAs (Decidable (_ ∧ _))

def Distinct (hl : Khlist υ) : Prop := ∀ p q, hl.Live p → hl.Live q → hl.pairAt p = hl.pairAt q → p = q

instance (hl : Khlist υ) : Decidable hl.Distinct :=
  decidable_of_iff (∀ p < hl.size, ∀ q < hl.size, hl.Live p ∧ hl.Live q ∧ hl.pairAt p = hl.pairAt q → p = q)
    ⟨fun inside p q left right same => inside p left.lt q right.lt ⟨left,right,same⟩,
      fun all p _ q _ both => all p q both.1 both.2.1 both.2.2⟩

def OnPath (hl : Khlist υ) (h : Hashes) (p : Nat) : Prop := Path hl.size hl.Live (home hl.size h) p

instance (hl : Khlist υ) (h : Hashes) : DecidablePred (hl.OnPath h) := fun _ => inferInstanceAs (Decidable (Path ..))

theorem Distinct.only (distinct : hl.Distinct) (stores : hl.Stores h p) (also : hl.Stores h q) : q = p :=
  distinct q p also.1 stores.1 (also.2.trans stores.2.symm)

theorem put_live_iff (bound : p < hl.size) : (hl.put p x).Live q ↔ (q = p ∧ x.exist = 1) ∨ (q ≠ p ∧ hl.Live q) := by
  by_cases here : q = p
  · subst here
    simp [Live,slot_put_here bound]
  · simp [Live,slot_put_other here,here]

theorem put_pair_other (away : q ≠ p) : (hl.put p x).pairAt q = hl.pairAt q := by
  rw [pairAt,pairAt,slot_put_other away]

theorem clear_live_iff (bound : p < hl.size) : (hl.put p cleared).Live q ↔ q ≠ p ∧ hl.Live q := by
  rw [put_live_iff bound]
  simp [cleared]

theorem occupy_live_iff (bound : p < hl.size) : (hl.put p (occupy h ud)).Live q ↔ q = p ∨ hl.Live q := by
  rw [put_live_iff bound]
  by_cases here : q = p <;> simp [here,occupy]

theorem occupy_stores (bound : p < hl.size) : (hl.put p (occupy h ud)).Stores h p := by
  refine ⟨(occupy_live_iff bound).mpr (Or.inl rfl),?_⟩
  rw [Holds,pairAt,slot_put_here bound]
  rfl

theorem occupy_stores_other {other : Hashes} (vacant : ¬ hl.Live p) (stores : hl.Stores other q) :
    (hl.put p (occupy h ud)).Stores other q ∧ (hl.put p (occupy h ud)).slot q = hl.slot q := by
  have away : q ≠ p := fun same => vacant (same ▸ stores.1)
  refine ⟨⟨?_,(put_pair_other away).trans stores.2⟩,slot_put_other away⟩
  rw [Live,slot_put_other away]
  exact stores.1

theorem OnPath.occupied {other : Hashes} (path : hl.OnPath other q) (bound : p < hl.size) :
    (hl.put p (occupy h ud)).OnPath other q :=
  path.mono fun _ occupied => (occupy_live_iff bound).mpr (Or.inr occupied)

end Khlist

section Probes
open Khlist
variable {hl : Khlist υ} {h : Hashes} {outcome : Outcome}

theorem probe_iff (positive : 0 < hl.size) : probe hl h = some outcome ↔
    Reaches hl.size hl.Live (hl.Holds h.pair) (home hl.size h) outcome := by
  rw [probe,if_neg (by omega),scan_iff (home_lt positive h)]

inductive Probed (hl : Khlist υ) (h : Hashes) : Outcome → Prop where
  | found : hl.Stores h p → hl.OnPath h p → Probed hl h (.found p)
  | empty : p < hl.size → ¬ hl.Live p → hl.OnPath h p → (∀ q, hl.Stores h q → ¬ hl.OnPath h q) → Probed hl h (.empty p)
  | wrapped : (∀ p < hl.size, hl.Live p ∧ ¬ hl.Holds h.pair p) → Probed hl h .wrapped

theorem probe_spec (positive : 0 < hl.size) (h : Hashes) : ∃ outcome, probe hl h = some outcome ∧ Probed hl h outcome := by
  have inside := home_lt positive h
  have clear : Clear hl.size hl.Live (hl.Holds h.pair) (home hl.size h) 0 := fun j below => absurd below (by omega)
  obtain ⟨outcome,scanned,reached⟩ := scan_reaches inside (Nat.zero_add _) positive clear
  refine ⟨outcome,(probe_iff positive).mpr reached,?_⟩
  cases reached with
  | found bound clear occupied hits => exact .found ⟨occupied,hits⟩ ⟨_,bound,rfl,fun j below => (clear j below).1⟩
  | empty bound clear vacant =>
    refine .empty (nth_lt inside) vacant ⟨_,bound,rfl,fun j below => (clear j below).1⟩ ?_
    intro q stores
    exact (Reaches.empty bound clear vacant).empty_cuts stores.1 stores.2
  | wrapped clear => exact .wrapped fun p bound => (Reaches.wrapped clear).full inside bound

theorem get_stored (distinct : hl.Distinct) (stores : hl.Stores (hashesOf str) p) (path : hl.OnPath (hashesOf str) p) :
    khlistGet hl str = some (p,some (hl.slot p).ud) := by
  have positive : 0 < hl.size := Nat.zero_lt_of_lt stores.1.lt
  have reached := reaches_found path stores.1 stores.2 fun q occupied hits => distinct.only stores ⟨occupied,hits⟩
  rw [khlistGet,(probe_iff positive).mpr reached]
  rfl

theorem get_missed (positive : 0 < hl.size) (missed : ∀ q, hl.Stores (hashesOf str) q → ¬ hl.OnPath (hashesOf str) q) :
    khlistGet hl str = some (minusOne,none) := by
  obtain ⟨outcome,probed,spec⟩ := probe_spec positive (hashesOf str)
  rw [khlistGet,probed]
  cases spec with
  | found stores path => exact absurd path (missed _ stores)
  | empty bound vacant path cuts => rfl
  | wrapped full => rfl

theorem position_word (bound : p < hl.size) : p ≠ minusOne := by
  have word := hl.word
  rw [minusOne]
  omega

theorem get_stored_iff (distinct : hl.Distinct) (stores : hl.Stores (hashesOf str) p) :
    khlistGet hl str = some (p,some (hl.slot p).ud) ↔ hl.OnPath (hashesOf str) p := by
  constructor
  · intro found
    by_contra cut
    have positive : 0 < hl.size := Nat.zero_lt_of_lt stores.1.lt
    have missed := get_missed positive fun q also => distinct.only stores also ▸ cut
    exact absurd (congrArg Prod.fst (Option.some.inj (found.symm.trans missed))) (position_word stores.1.lt)
  · exact get_stored distinct stores

inductive Placed (hl : Khlist υ) (h : Hashes) (ud : Option υ) (full : Option (Nat × Khlist υ)) :
    Option (Nat × Khlist υ) → Prop where
  | present : hl.Stores h p → hl.OnPath h p → Placed hl h ud full (some (minusOne,hl))
  | placed : p < hl.size → ¬ hl.Live p → hl.OnPath h p → (∀ q, hl.Stores h q → ¬ hl.OnPath h q) →
      Placed hl h ud full (some (p,hl.put p (occupy h ud)))
  | full : (∀ p < hl.size, hl.Live p ∧ ¬ hl.Holds h.pair p) → result = full → Placed hl h ud full result

theorem place_spec (positive : 0 < hl.size) (h : Hashes) (ud : Option υ) (full : Option (Nat × Khlist υ)) :
    Placed hl h ud full (place hl h ud full) := by
  obtain ⟨outcome,probed,spec⟩ := probe_spec positive h
  rw [place,probed]
  cases spec with
  | found stores path => exact .present stores path
  | empty bound vacant path cuts => exact .placed bound vacant path cuts
  | wrapped filled => exact .full filled rfl

theorem expand_spec {fresh : Nat → Slot υ} {grown : Khlist υ} (ran : expand hl fresh = some grown) :
    grown.size = hl.size*2 ∧ (∀ p < hl.size, grown.slot p = hl.slot p) ∧
      ∀ p, hl.size ≤ p → p < hl.size*2 → grown.slot p = fresh p := by
  unfold expand at ran
  split at ran
  · cases Option.some.inj ran
    have block := hl.block
    refine ⟨rfl,?_,?_⟩
    · intro p bound
      rw [slot,slot,List.getD_append _ _ _ _ (by omega)]
    · intro p upper bound
      rw [slot,List.getD_append_right _ _ _ _ (by omega),block]
      have inside : p-hl.size < hl.size := by omega
      simp [List.getD_eq_getElem?_getD,inside,Nat.add_sub_cancel' upper]
  · cases ran

-- A whole set: it gives up where it is, places the key, or grows and starts
-- over. A relation closed under the three holds of every set that returns.
theorem set_rule {motive : Khlist υ → Nat → Khlist υ → Prop} {str : Key} {ud : Option υ}
    (stays : ∀ hl, motive hl minusOne hl)
    (places : ∀ hl p, p < hl.size → ¬ hl.Live p → motive hl p (hl.put p (occupy (hashesOf str) ud)))
    (grows : ∀ hl fresh grown ret after, expand hl fresh = some grown → motive grown ret after → motive hl ret after)
    {mallocs : List (Nat → Slot υ)} (positive : 0 < hl.size)
    (ran : khlistSet hl str ud mallocs = some (ret,after)) : motive hl ret after := by
  induction mallocs generalizing hl with
  | nil =>
    have spec := place_spec positive (hashesOf str) ud (some (minusOne,hl))
    rw [khlistSet] at ran
    rw [ran] at spec
    cases spec with
    | present stores path => exact stays _
    | placed bound vacant path cuts => exact places _ _ bound vacant
    | full filled same => cases same; exact stays _
  | cons fresh mallocs ih =>
    have spec := place_spec positive (hashesOf str) ud ((expand hl fresh).bind fun grown => khlistSet grown str ud mallocs)
    rw [khlistSet] at ran
    rw [ran] at spec
    cases spec with
    | present stores path => exact stays _
    | placed bound vacant path cuts => exact places _ _ bound vacant
    | full filled same =>
      obtain ⟨grown,expanded,again⟩ := Option.bind_eq_some_iff.mp same.symm
      have doubled := (expand_spec expanded).1
      exact grows hl fresh grown ret after expanded (ih (by omega) again)

theorem set_size_le {mallocs : List (Nat → Slot υ)} (positive : 0 < hl.size)
    (ran : khlistSet hl str ud mallocs = some (ret,after)) : hl.size ≤ after.size := by
  refine set_rule (motive := fun hl _ after => hl.size ≤ after.size) ?_ ?_ ?_ positive ran
  · intro hl
    exact le_rfl
  · intro hl p bound vacant
    exact le_rfl
  · intro hl fresh grown ret after expanded more
    have doubled := (expand_spec expanded).1
    omega

-- A set is one pass, except that a wrapped pass either gives up or returns
-- with a table at least twice as large.
theorem set_place (positive : 0 < hl.size) (str : Key) (ud : Option υ) (mallocs : List (Nat → Slot υ)) :
    ∃ full, khlistSet hl str ud mallocs = place hl (hashesOf str) ud full ∧
      (full = some (minusOne,hl) ∨ ∀ ret after, full = some (ret,after) → hl.size*2 ≤ after.size) := by
  cases mallocs with
  | nil => exact ⟨_,rfl,Or.inl rfl⟩
  | cons fresh mallocs =>
    refine ⟨_,rfl,Or.inr ?_⟩
    intro ret after ran
    obtain ⟨grown,expanded,again⟩ := Option.bind_eq_some_iff.mp ran
    have doubled := (expand_spec expanded).1
    rw [← doubled]
    exact set_size_le (by omega) again

-- An unchanged size is a set that gives up where it would have grown.
theorem set_unexpanded {mallocs : List (Nat → Slot υ)} (positive : 0 < hl.size)
    (ran : khlistSet hl str ud mallocs = some (ret,after)) (size : after.size = hl.size) :
    place hl (hashesOf str) ud (some (minusOne,hl)) = some (ret,after) := by
  obtain ⟨full,same,wraps⟩ := set_place positive str ud mallocs
  obtain ⟨outcome,probed,_⟩ := probe_spec positive (hashesOf str)
  rw [same] at ran
  simp only [place,probed,Option.bind_some] at ran ⊢
  cases outcome with
  | found p => exact ran
  | empty p => exact ran
  | wrapped =>
    rcases wraps with gave_up | grew
    · exact gave_up.symm.trans ran
    · have doubled := grew ret after ran
      omega

-- A deletion clears the slot where the loop stops, found or not.
inductive Deleted (hl : Khlist υ) (h : Hashes) : Nat × Option (Option υ) × Khlist υ → Prop where
  | found : hl.Stores h p → hl.OnPath h p → Deleted hl h (p,some (hl.slot p).ud,hl.put p cleared)
  | empty : p < hl.size → ¬ hl.Live p → Deleted hl h (p,some (hl.slot p).ud,hl.put p cleared)
  | full : Deleted hl h (minusOne,none,hl)

theorem del_spec (positive : 0 < hl.size) (str : Key) :
    ∃ result, khlistDel hl str = some result ∧ Deleted hl (hashesOf str) result := by
  obtain ⟨outcome,probed,spec⟩ := probe_spec positive (hashesOf str)
  rw [khlistDel,probed]
  cases spec with
  | found stores path => exact ⟨_,rfl,.found stores path⟩
  | empty bound vacant path cuts => exact ⟨_,rfl,.empty bound vacant⟩
  | wrapped filled => exact ⟨_,rfl,.full⟩

theorem del_stored (distinct : hl.Distinct) (stores : hl.Stores (hashesOf str) p) (path : hl.OnPath (hashesOf str) p) :
    khlistDel hl str = some (p,some (hl.slot p).ud,hl.put p cleared) := by
  have positive : 0 < hl.size := Nat.zero_lt_of_lt stores.1.lt
  have reached := reaches_found path stores.1 stores.2 fun q occupied hits => distinct.only stores ⟨occupied,hits⟩
  rw [khlistDel,(probe_iff positive).mpr reached]
  rfl

end Probes
end EventLib.Hmap
