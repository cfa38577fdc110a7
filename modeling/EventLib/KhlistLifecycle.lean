import EventLib.KhlistExpand

namespace EventLib.HmapLifecycle
open LinearProbe Hmap Khlist HmapExpand LabelledRuns
open HmapDictionary hiding step start
open HmapDelete (Op clear_path_iff kept_iff keyC)

variable {υ : Type}

def keyOf : Op υ → Key
  | .set str _ _ => str
  | .get str => str
  | .del str => str

def start (hl : Khlist υ) : Session υ := HmapDictionary.start hl

-- `firsts` is the dictionary the table stands for; a deletion takes the key out.
def step (s : Session υ) : Op υ → Option (Session υ)
  | .set str ud mallocs => HmapDictionary.step s (.set str ud mallocs)
  | .get str => HmapDictionary.step s (.get str)
  | .del str => (khlistDel s.table str).map fun result => ⟨result.2.2,Function.update s.firsts str none⟩

def looked : Option (Nat × Option υ) → Nat × Option (Option υ)
  | none => (minusOne,none)
  | some (p,ud) => (p,some ud)

-- Every key is found as the dictionary has it, and no slot is marked that the
-- dictionary does not know of.
structure Mirrors (keys : Set Key) (s : Session υ) : Prop where
  reads : ∀ str ∈ keys, khlistGet s.table str = some (looked (s.firsts str))
  marked : ∀ p, s.table.Live p → ∃ str ud, s.firsts str = some (p,ud)

-- The call returns and leaves a table that is the dictionary.
def Mirrored (keys : Set Key) (s : Session υ) (op : Op υ) : Prop := ∃ next, step s op = some next ∧ Mirrors keys next

-- What a call returns. A set is turned away when the key is there already, and
-- when the table is full and no block can be had.
def Obeys (s : Session υ) : Op υ → Prop
  | .set str ud mallocs =>
    match s.firsts str with
    | none => (Full s.table ∧ mallocs = [] ∧ khlistSet s.table str ud mallocs = some (minusOne,s.table)) ∨
        ∃ p after, khlistSet s.table str ud mallocs = some (p,after) ∧ p ≠ minusOne
    | some _ => khlistSet s.table str ud mallocs = some (minusOne,s.table)
  | .get str => khlistGet s.table str = some (looked (s.firsts str))
  | .del str => ∀ entry ∈ s.firsts str, ∃ after, khlistDel s.table str = some (entry.1,some entry.2,after)

-- An expansion gets a block without stray marks and leaves the old keys in
-- reach; a deletion gives up no slot that another stored key was put past.
def Careful (keys : Set Key) (s : Session υ) : Op υ → Prop
  | .set str _ (fresh::_) => Full s.table → s.firsts str = none →
      s.table.size < 2^31 ∧ Blank s.table fresh ∧ StillReached keys s.table str
  | .set _ _ [] => True
  | .get _ => True
  | .del str => ∀ entry ∈ s.firsts str, ∀ other ∈ keys, other ≠ str → ∀ held ∈ s.firsts other,
      ¬ Crosses s.table.size (home s.table.size (hashesOf other)) entry.1 held.1

section Steps
variable {keys : Set Key} {s next : Session υ} {str : Key} {ud : Option υ} {p : Nat}

theorem filed_mirrors (filed : Filed keys s) (separated : Set.InjOn pairOf keys) : Mirrors keys s := by
  refine ⟨?_,filed.owned⟩
  intro str member
  cases held : s.firsts str with
  | none => exact filed.get_absent separated member held
  | some entry => exact filed.get separated held

section Deletions

-- The table after a deletion that cuts no other key's way.
theorem delete_filed (filed : Filed keys s) (separated : Set.InjOn pairOf keys) (taken : s.firsts str = some (p,ud))
    (careful : Careful keys s (.del str)) : Filed keys ⟨s.table.put p cleared,Function.update s.firsts str none⟩ := by
  obtain ⟨stores,_,_⟩ := filed.filed str p ud taken
  have bound := stores.1.lt
  -- an entry of the new dictionary is an old one of another key
  have older : ∀ other entry, Function.update s.firsts str none other = some entry → other ≠ str ∧ s.firsts other = some entry := by
    intro other entry now
    by_cases same : other = str
    · rw [same,Function.update_self] at now
      cases now
    · rw [Function.update_of_ne same] at now
      exact ⟨same,now⟩
  refine ⟨filed.positive,?_,?_,?_⟩
  · intro other q data now
    obtain ⟨apart,held⟩ := older other (q,data) now
    obtain ⟨keeps,path,kept⟩ := filed.filed other q data held
    have away : q ≠ p := by
      rintro rfl
      exact apart (separated (filed.known _ _ _ held) (filed.known _ _ _ taken) (keeps.2.symm.trans stores.2))
    refine ⟨⟨(clear_live_iff bound).mpr ⟨away,keeps.1⟩,(put_pair_other away).trans keeps.2⟩,?_,?_⟩
    · exact (clear_path_iff bound).mpr ⟨path,careful (p,ud) taken other (filed.known _ _ _ held) apart (q,data) held⟩
    · exact (congrArg Slot.ud (slot_put_other away)).trans kept
  · intro q occupied
    obtain ⟨away,old⟩ := (clear_live_iff bound).mp occupied
    obtain ⟨other,data,held⟩ := filed.owned q old
    refine ⟨other,data,?_⟩
    have apart : other ≠ str := by
      rintro rfl
      cases Option.some.inj (held.symm.trans taken)
      exact away rfl
    exact (Function.update_of_ne apart ..).trans held
  · intro other q data now
    exact filed.known other q data (older other (q,data) now).2

-- Clearing a slot that is free already.
theorem vacant_filed (filed : Filed keys s) (bound : p < s.table.size) (vacant : ¬ s.table.Live p) :
    Filed keys ⟨s.table.put p cleared,s.firsts⟩ := by
  have live : ∀ q, (s.table.put p cleared).Live q ↔ s.table.Live q := by
    intro q
    rw [clear_live_iff bound]
    exact ⟨And.right,fun occupied => ⟨fun same => vacant (same ▸ occupied),occupied⟩⟩
  refine ⟨filed.positive,?_,?_,filed.known⟩
  · intro other q data held
    obtain ⟨keeps,path,kept⟩ := filed.filed other q data held
    have away : q ≠ p := fun same => vacant (same ▸ keeps.1)
    refine ⟨⟨(live q).mpr keeps.1,(put_pair_other away).trans keeps.2⟩,?_,?_⟩
    · exact path.mono fun r occupied => (live r).mpr occupied
    · exact (congrArg Slot.ud (slot_put_other away)).trans kept
  · intro q occupied
    exact filed.owned q ((live q).mp occupied)

theorem absent_delete (filed : Filed keys s) (separated : Set.InjOn pairOf keys) (member : str ∈ keys)
    (absent : s.firsts str = none) : ∃ next, step s (.del str) = some next ∧ Filed keys next := by
  have same : Function.update s.firsts str none = s.firsts := by rw [← absent,Function.update_eq_self]
  obtain ⟨result,deleted,spec⟩ := del_spec filed.positive str
  have ran : step s (.del str) = some ⟨result.2.2,s.firsts⟩ := by rw [step,deleted,Option.map_some,same]
  cases spec with
  | found stores path => exact absurd stores (filed.absent separated member absent _)
  | empty bound vacant => exact ⟨_,ran,vacant_filed filed bound vacant⟩
  | full => exact ⟨_,ran,filed⟩

theorem stored_delete (filed : Filed keys s) (separated : Set.InjOn pairOf keys) (taken : s.firsts str = some (p,ud)) :
    khlistDel s.table str = some (p,some ud,s.table.put p cleared) := by
  obtain ⟨stores,path,data⟩ := filed.filed str p ud taken
  rw [del_stored (filed.distinct separated) stores path,data]

theorem stored_step (filed : Filed keys s) (separated : Set.InjOn pairOf keys) (taken : s.firsts str = some (p,ud)) :
    step s (.del str) = some ⟨s.table.put p cleared,Function.update s.firsts str none⟩ := by
  rw [step,stored_delete filed separated taken]
  rfl

theorem delete_obeys (filed : Filed keys s) (separated : Set.InjOn pairOf keys) (member : str ∈ keys)
    (careful : Careful keys s (.del str)) : Obeys s (.del str) ∧ ∃ next, step s (.del str) = some next ∧ Filed keys next := by
  cases taken : s.firsts str with
  | none =>
    refine ⟨?_,absent_delete filed separated member taken⟩
    intro entry stored
    rw [taken] at stored
    cases stored
  | some entry =>
    obtain ⟨p,ud⟩ := entry
    refine ⟨?_,_,stored_step filed separated taken,delete_filed filed separated taken careful⟩
    intro entry stored
    cases Option.some.inj (taken.symm.trans stored)
    exact ⟨_,stored_delete filed separated taken⟩

theorem mirrored_delete (filed : Filed keys s) (separated : Set.InjOn pairOf keys) (mirrored : Mirrored keys s (.del str)) :
    Careful keys s (.del str) := by
  obtain ⟨next,ran,mirrors⟩ := mirrored
  intro entry taken other member apart held kept
  cases Option.some.inj ((stored_step filed separated taken).symm.trans ran)
  refine (kept_iff separated filed taken kept apart).mp ?_
  have now := mirrors.reads other member
  dsimp only at now
  rw [Function.update_of_ne apart,kept] at now
  rw [filed.get separated kept]
  exact now

end Deletions

section Insertions
variable {mallocs : List (Nat → Slot υ)} {fresh : Nat → Slot υ}

theorem expand_small {hl : Khlist υ} (small : hl.size < 2^31) : ∃ grown, expand hl fresh = some grown := ⟨_,dif_pos small⟩

theorem set_obeys (filed : Filed keys s) (separated : Set.InjOn pairOf keys) (member : str ∈ keys)
    (careful : Careful keys s (.set str ud mallocs)) :
    Obeys s (.set str ud mallocs) ∧ ∃ next, step s (.set str ud mallocs) = some next ∧ Filed keys next := by
  have settled : ∀ full, khlistSet s.table str ud mallocs = place s.table (hashesOf str) ud full →
      (s.firsts str = none → Full s.table →
        ((mallocs = [] ∧ full = some (minusOne,s.table)) ∨ ∃ p after, full = some (p,after) ∧ p ≠ minusOne) ∧
        ∃ ret after, full = some (ret,after) ∧ Filed keys ⟨after,record s str ud ret⟩) →
      Obeys s (.set str ud mallocs) ∧ ∃ next, step s (.set str ud mallocs) = some next ∧ Filed keys next := by
    intro full same wrapped
    have spec := place_filed filed separated member ud full
    rw [← same] at spec
    simp only [Obeys,step,HmapDictionary.step]
    generalize khlistSet s.table str ud mallocs = result at spec ⊢
    cases spec with
    | present held =>
      rw [held]
      exact ⟨rfl,s,congrArg some refused_unchanged,filed⟩
    | filed fresh bound after =>
      rw [fresh]
      exact ⟨Or.inr ⟨_,_,rfl,position_word bound⟩,_,rfl,after⟩
    | full fresh filled result =>
      obtain ⟨answer,ret,after,returned,done⟩ := wrapped fresh filled
      rw [fresh,result]
      refine ⟨?_,_,congrArg (Option.map _) returned,done⟩
      rcases answer with ⟨none_left,refused⟩ | placed
      · exact Or.inl ⟨filled,none_left,refused⟩
      · exact Or.inr placed
  cases mallocs with
  | nil =>
    refine settled _ rfl fun _ _ => ⟨Or.inl ⟨rfl,rfl⟩,_,_,rfl,?_⟩
    rw [refused_unchanged]
    exact filed
  | cons fresh mallocs =>
    refine settled _ rfl ?_
    intro absent filled
    obtain ⟨small,blank,reached⟩ := careful filled absent
    obtain ⟨grown,expanded⟩ := expand_small small
    have nowhere := filed.absent separated member absent
    have set := blank_set filed.positive filled blank expanded nowhere ud mallocs
    rw [khlistSet,place_full filed.positive filled nowhere] at set
    have moved := blank_resettled filed.positive filled (filed.distinct separated) blank expanded nowhere ud
    have inside := (moved.new_stored filed.positive).1.1.lt
    exact ⟨Or.inr ⟨_,_,set,position_word inside⟩,_,_,set,resettled_filed filed filled member absent moved reached⟩

-- A marked slot of the fresh block would outlive the call.
theorem mirrored_blank {ret : Nat} {after : Khlist υ} (filed : Filed keys s) (filled : Full s.table)
    (nowhere : ∀ p, ¬ s.table.Stores (hashesOf str) p) (set : khlistSet s.table str ud (fresh::mallocs) = some (ret,after))
    (mirrors : Mirrors keys ⟨after,record s str ud ret⟩) : Blank s.table fresh := by
  intro p low high stray
  rw [khlistSet,place_full filed.positive filled nowhere] at set
  obtain ⟨grown,expanded,again⟩ := Option.bind_eq_some_iff.mp set
  obtain ⟨size,_,upper⟩ := expand_spec expanded
  have occupied : grown.Live p := by
    rw [Live,upper p low high]
    exact stray
  have positive := filed.positive
  obtain ⟨alive,apart⟩ := set_keeps_live (by omega) again p occupied
  obtain ⟨other,data,taken⟩ := mirrors.marked p alive
  dsimp only at taken
  by_cases refused : ret = minusOne
  · rw [refused,record,if_pos rfl] at taken
    have old := (filed.filed other p data taken).1.1.lt
    omega
  · by_cases same : other = str
    · rw [same,record_here refused] at taken
      cases taken
      exact apart rfl
    · have old := (filed.filed other p data ((record_other same).symm.trans taken)).1.1.lt
      omega

theorem mirrored_growth (filed : Filed keys s) (separated : Set.InjOn pairOf keys) (member : str ∈ keys)
    (mirrored : Mirrored keys s (.set str ud (fresh::mallocs))) : Careful keys s (.set str ud (fresh::mallocs)) := by
  intro filled absent
  have nowhere := filed.absent separated member absent
  obtain ⟨next,ran,mirrors⟩ := mirrored
  obtain ⟨⟨ret,after⟩,set,rfl⟩ := Option.map_eq_some_iff.mp ran
  have blank := mirrored_blank filed filled nowhere set mirrors
  have small : s.table.size < 2^31 := by
    by_contra large
    rw [khlistSet,place_full filed.positive filled nowhere,expand,dif_neg large] at set
    cases set
  obtain ⟨grown,expanded⟩ := expand_small small
  have moved := blank_resettled filed.positive filled (filed.distinct separated) blank expanded nowhere ud
  cases Option.some.inj (set.symm.trans (blank_set filed.positive filled blank expanded nowhere ud mallocs))
  refine ⟨small,blank,?_⟩
  intro key inside p stores
  obtain ⟨data,taken⟩ := filed.owner separated inside stores
  have away : key ≠ str := fun same => nowhere p (same ▸ stores)
  refine (moved.old_iff stores).mp ⟨p,position_word stores.1.lt,?_⟩
  have now := mirrors.reads key inside
  dsimp only at now
  rw [record_other away,taken] at now
  rw [now,(filed.filed key p data taken).2.2]
  rfl

end Insertions

theorem op_obeys {op : Op υ} (filed : Filed keys s) (separated : Set.InjOn pairOf keys) (member : keyOf op ∈ keys)
    (careful : Careful keys s op) : Obeys s op ∧ ∃ next, step s op = some next ∧ Filed keys next := by
  cases op with
  | set str ud mallocs => exact set_obeys filed separated member careful
  | get str =>
    have found := (filed_mirrors filed separated).reads str member
    refine ⟨found,s,?_,filed⟩
    simp only [step,HmapDictionary.step,found,Option.map_some]
  | del str => exact delete_obeys filed separated member careful

theorem op_filed {op : Op υ} (filed : Filed keys s) (separated : Set.InjOn pairOf keys) (member : keyOf op ∈ keys)
    (careful : Careful keys s op) (ran : step s op = some next) : Filed keys next := by
  obtain ⟨_,other,same,after⟩ := op_obeys filed separated member careful
  cases Option.some.inj (ran.symm.trans same)
  exact after

theorem mirrored_iff {op : Op υ} (filed : Filed keys s) (separated : Set.InjOn pairOf keys) (member : keyOf op ∈ keys) :
    Mirrored keys s op ↔ Careful keys s op := by
  constructor
  · intro mirrored
    cases op with
    | set str ud mallocs =>
      cases mallocs with
      | nil => trivial
      | cons fresh mallocs => exact mirrored_growth filed separated member mirrored
    | get str => trivial
    | del str => exact mirrored_delete filed separated mirrored
  · intro careful
    obtain ⟨_,next,ran,after⟩ := op_obeys filed separated member careful
    exact ⟨next,ran,filed_mirrors after separated⟩

end Steps

-- Over any run of all three calls, on a table of any size, the table stays the
-- dictionary exactly as long as every expansion and every deletion is careful.
theorem lifecycle_dictionary_iff {keys : Set Key} {sz : UInt32} {header block : Bool} {hl : Khlist υ} {ops : List (Op υ)}
    (made : khlistCreate sz header block = some hl) (nonzero : sz ≠ 0) (separated : Set.InjOn pairOf keys)
    (uses : ∀ op ∈ ops, keyOf op ∈ keys) :
    (Along step (Mirrored keys) (start hl) ops ↔ Along step (Careful keys) (start hl) ops) ∧
    (Along step (Careful keys) (start hl) ops →
      Along step Obeys (start hl) ops ∧ ∃ last, exec step (start hl) ops = some last ∧ Mirrors keys last) := by
  have begin : Filed keys (start hl) := start_filed keys made nonzero
  have used : Along step (fun _ op => keyOf op ∈ keys) (start hl) ops := along_of_forall uses
  constructor
  · refine along_iff ?_ ?_ begin used
    · intro s op filed member
      exact mirrored_iff filed separated member
    · intro s op next filed member mirrored ran
      exact op_filed filed separated member ((mirrored_iff filed separated member).mp mirrored) ran
  · intro careful
    have guarded := along_and.mpr ⟨used,careful⟩
    constructor
    · refine along_guarded ?_ ?_ begin guarded
      · intro s op next filed good ran
        exact op_filed filed separated good.1 good.2 ran
      · intro s op filed good
        exact (op_obeys filed separated good.1 good.2).1
    · obtain ⟨last,ran,filed⟩ := exec_total (fun s op filed good => (op_obeys filed separated good.1 good.2).2) begin guarded
      exact ⟨last,ran,filed_mirrors filed separated⟩

instance (hl : Khlist υ) : Decidable (Full hl) := inferInstanceAs (Decidable (∀ p < hl.size, hl.Live p))

instance (hl : Khlist υ) (fresh : Nat → Slot υ) : Decidable (Blank hl fresh) :=
  inferInstanceAs (Decidable (∀ p, hl.size ≤ p → p < hl.size*2 → (fresh p).exist ≠ 1))

instance (keys : Finset Key) (hl : Khlist υ) (str : Key) : Decidable (StillReached keys hl str) :=
  decidable_of_iff (∀ key ∈ keys, ∀ p < hl.size, hl.Stores (hashesOf key) p → home (hl.size*2) (hashesOf key) ≤ p ∨
      (home (hl.size*2) (hashesOf key) = hl.size*2-1 ∧ landing hl str = hl.size*2-1))
    ⟨fun low key member p stores => low key member p stores.1.lt stores,fun all key member p _ => all key member p⟩

instance (keys : Finset Key) (s : Session υ) : ∀ op, Decidable (Careful keys s op)
  | .set str _ (fresh::_) => inferInstanceAs (Decidable (Full s.table → s.firsts str = none →
      s.table.size < 2^31 ∧ Blank s.table fresh ∧ StillReached keys s.table str))
  | .set _ _ [] => isTrue trivial
  | .get _ => isTrue trivial
  | .del str => inferInstanceAs (Decidable (∀ entry ∈ s.firsts str, ∀ other ∈ keys, other ≠ str → ∀ held ∈ s.firsts other,
      ¬ Crosses s.table.size (home s.table.size (hashesOf other)) entry.1 held.1))

-- `f` leaves and comes back, then `d` has the full table doubled.
def busyOps : List (Op Nat) := [.set keyC (some 1) [],.set keyF (some 2) [],.del keyF,.set keyF (some 5) [],
  .set keyD (some 3) [fun _ => cleared],.del keyC,.get keyD]

theorem busy_mirrored : Along step (Mirrored homeKeys) (start pairTable) busyOps ∧ Along step Obeys (start pairTable) busyOps ∧
    ∃ last, exec step (start pairTable) busyOps = some last ∧ Mirrors homeKeys last := by
  have made : khlistCreate 2 true true = some pairTable := rfl
  have uses : ∀ op ∈ busyOps, keyOf op ∈ homeKeys := by decide
  have careful : Along step (Careful homeKeys) (start pairTable) busyOps := by decide +kernel
  obtain ⟨same,obeys⟩ := lifecycle_dictionary_iff made (by decide) home_separated uses
  exact ⟨same.mpr careful,obeys careful⟩

section Spellings

-- What the hashing sees of a key: capitals, up to the terminating zero.
def canonical (str : Key) : Key := (str.takeWhile (· ≠ 0)).map toupper

def spelled : Op υ → Op υ
  | .set str ud mallocs => .set (canonical str) ud mallocs
  | .get str => .get (canonical str)
  | .del str => .del (canonical str)

-- The table with everything the calls have returned so far.
structure Transcript (υ : Type) where
  table : Khlist υ
  returned : List (Nat × Option (Option υ))

def Transcript.after (t : Transcript υ) (table : Khlist υ) (answer : Nat × Option (Option υ)) : Transcript υ :=
  ⟨table,t.returned++[answer]⟩

def call (t : Transcript υ) : Op υ → Option (Transcript υ)
  | .set str ud mallocs => (khlistSet t.table str ud mallocs).map fun (ret,table) => t.after table (ret,none)
  | .get str => (khlistGet t.table str).map fun answer => t.after t.table answer
  | .del str => (khlistDel t.table str).map fun (ret,data,table) => t.after table (ret,data)

theorem toupper_toNat (c : UInt8) : (toupper c).toNat = if 97 ≤ c.toNat ∧ c.toNat ≤ 122 then c.toNat-32 else c.toNat := by
  unfold toupper
  have letters : (97 ≤ c ∧ c ≤ 122) ↔ (97 ≤ c.toNat ∧ c.toNat ≤ 122) := Iff.rfl
  by_cases small : 97 ≤ c.toNat ∧ c.toNat ≤ 122
  · rw [if_pos (letters.mpr small),if_pos small,UInt8.toNat_sub_of_le]
    · rfl
    · exact Nat.le_trans (by decide) small.1
  · rw [if_neg (fun both => small (letters.mp both)),if_neg small]

theorem toupper_toupper (c : UInt8) : toupper (toupper c) = toupper c := by
  apply UInt8.toNat_inj.mp
  rw [toupper_toNat (toupper c),toupper_toNat c]
  by_cases small : 97 ≤ c.toNat ∧ c.toNat ≤ 122
  · rw [if_pos small,if_neg (by omega)]
  · rw [if_neg small,if_neg small]

theorem toupper_nonzero {c : UInt8} (nonzero : c ≠ 0) : toupper c ≠ 0 := by
  intro zero
  have value := congrArg UInt8.toNat zero
  have positive : c.toNat ≠ 0 := fun same => nonzero (UInt8.toNat_inj.mp same)
  rw [toupper_toNat] at value
  have none_left : (0 : UInt8).toNat = 0 := rfl
  split at value <;> omega

theorem hashLoop_canonical (type : UInt32) (str : Key) (seed1 seed2 : UInt32) :
    hashLoop type (canonical str) seed1 seed2 = hashLoop type str seed1 seed2 := by
  induction str generalizing seed1 seed2 with
  | nil => rfl
  | cons c str ih =>
    by_cases zero : c = 0
    · simp [canonical,hashLoop,zero]
    · have unfolded : canonical (c::str) = toupper c::canonical str := by simp [canonical,zero]
      rw [unfolded,hashLoop,hashLoop,if_neg zero,if_neg (toupper_nonzero zero),toupper_toupper]
      exact ih _ _

theorem hashes_canonical (str : Key) : hashesOf (canonical str) = hashesOf str := by
  simp only [hashesOf,hashString,hashLoop_canonical]

theorem set_canonical (hl : Khlist υ) (str : Key) (ud : Option υ) (mallocs : List (Nat → Slot υ)) :
    khlistSet hl (canonical str) ud mallocs = khlistSet hl str ud mallocs := by
  induction mallocs generalizing hl with
  | nil => simp only [khlistSet,hashes_canonical]
  | cons fresh mallocs ih => simp only [khlistSet,hashes_canonical,ih]

theorem call_spelled (t : Transcript υ) (op : Op υ) : call t (spelled op) = call t op := by
  cases op with
  | set str ud mallocs => simp only [spelled,call,set_canonical]
  | get str => simp only [spelled,call,khlistGet,hashes_canonical]
  | del str => simp only [spelled,call,khlistDel,hashes_canonical]

theorem exec_spelled (t : Transcript υ) (ops : List (Op υ)) : exec call t (ops.map spelled) = exec call t ops := by
  induction ops generalizing t with
  | nil => rfl
  | cons op ops ih =>
    rw [List.map_cons,exec,exec,call_spelled]
    exact congrArg _ (funext ih)

-- A run and the same run with any key respelled return the same throughout and
-- end with the same table.
theorem respelling_unseen (hl : Khlist υ) {ops respelled : List (Op υ)} (alike : ops.map spelled = respelled.map spelled) :
    exec call ⟨hl,[]⟩ ops = exec call ⟨hl,[]⟩ respelled := by
  rw [← exec_spelled,alike,exec_spelled]

theorem capital_respelling : exec call ⟨pairTable,[]⟩ [.set keyA (some 1) [],.get [65,0,98],.del [65]] =
    exec call ⟨pairTable,[]⟩ [.set [65] (some 1) [],.get keyA,.del keyA] :=
  respelling_unseen pairTable rfl

end Spellings

end EventLib.HmapLifecycle
