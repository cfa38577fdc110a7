import EventLib.KhlistDelete

namespace EventLib.HmapExpand
open LinearProbe Hmap Khlist HmapDictionary HmapDelete LabelledRuns

-- In twice the slots, with the lower half and one upper slot `m` live, a low
-- slot is reached from below it, or from the last slot when that is `m`.
theorem doubled_path_iff {n m p begin : Nat} (lower : n ≤ m) (upper : m < n*2) (bound : p < n) (inside : begin < n*2) :
    Path (n*2) (fun q => q < n ∨ q = m) begin p ↔ begin ≤ p ∨ (begin = n*2-1 ∧ m = n*2-1) := by
  constructor
  · rintro ⟨i,short,here,before⟩
    by_cases ahead : begin ≤ p
    · exact Or.inl ahead
    -- the way wraps, so it passes the last slot, and the one before it if it
    -- began any earlier
    have wraps : n*2 ≤ begin+i := by
      by_contra straight
      rw [nth_ahead (by omega)] at here
      omega
    have last := before (n*2-1-begin) (by omega)
    rw [nth_ahead (by omega)] at last
    refine Or.inr ⟨?_,by omega⟩
    by_contra earlier
    have previous := before (n*2-2-begin) (by omega)
    rw [nth_ahead (by omega)] at previous
    omega
  · rintro (ahead | ⟨last,top⟩)
    · refine ⟨p-begin,by omega,?_,?_⟩
      · rw [nth_ahead (by omega)]
        omega
      · intro j below
        rw [nth_ahead (by omega)]
        exact Or.inl (by omega)
    · refine ⟨p+1,by omega,?_,?_⟩
      · rw [nth_around (by omega) (by omega)]
        omega
      · intro j below
        by_cases first : j = 0
        · rw [first,nth_zero inside]
          exact Or.inr (by omega)
        · rw [nth_around (by omega) (by omega)]
          exact Or.inl (by omega)

variable {υ : Type}

def Full (hl : Khlist υ) : Prop := ∀ p < hl.size, hl.Live p

def Blank (hl : Khlist υ) (fresh : Nat → Slot υ) : Prop := ∀ p, hl.size ≤ p → p < hl.size*2 → (fresh p).exist ≠ 1

def landing (hl : Khlist υ) (str : Key) : Nat := max (home (hl.size*2) (hashesOf str)) hl.size

structure Kept (keys : Set Key) (hl after : Khlist υ) (str : Key) (ud : Option υ) (ret : Nat) : Prop where
  old : ∀ key ∈ keys, ∀ p, hl.Stores (hashesOf key) p → ∃ q, q ≠ minusOne ∧ khlistGet after key = some (q,some (hl.slot p).ud)
  new : khlistGet after str = some (ret,some ud)
  marked : ∀ p, after.Live p ↔ p < hl.size ∨ p = ret

def StillReached (keys : Set Key) (hl : Khlist υ) (str : Key) : Prop :=
  ∀ key ∈ keys, ∀ p, hl.Stores (hashesOf key) p → home (hl.size*2) (hashesOf key) ≤ p ∨
    (home (hl.size*2) (hashesOf key) = hl.size*2-1 ∧ landing hl str = hl.size*2-1)

theorem set_keeps_live {hl after : Khlist υ} {mallocs : List (Nat → Slot υ)} (positive : 0 < hl.size)
    (ran : khlistSet hl str ud mallocs = some (ret,after)) : ∀ p, hl.Live p → after.Live p ∧ p ≠ ret := by
  refine set_rule (motive := fun hl ret after => ∀ p, hl.Live p → after.Live p ∧ p ≠ ret) ?_ ?_ ?_ positive ran
  · intro hl p occupied
    exact ⟨occupied,position_word occupied.lt⟩
  · intro hl q bound vacant p occupied
    exact ⟨(occupy_live_iff bound).mpr (Or.inr occupied),fun same => vacant (same ▸ occupied)⟩
  · intro hl fresh grown ret after expanded keeps p occupied
    have lower := (expand_spec expanded).2.1
    refine keeps p ?_
    rw [Live,lower p occupied.lt]
    exact occupied

theorem place_full {hl : Khlist υ} (positive : 0 < hl.size) (full : Full hl) (absent : ∀ p, ¬ hl.Stores h p)
    (ud : Option υ) (result : Option (Nat × Khlist υ)) : place hl h ud result = result := by
  have spec := place_spec positive h ud result
  generalize place hl h ud result = answer at spec ⊢
  cases spec with
  | present stores path => exact absurd stores (absent _)
  | placed bound vacant path cuts => exact absurd (full _ bound) vacant
  | full filled same => exact same

section Blanks
variable {hl grown : Khlist υ} {fresh : Nat → Slot υ} {str : Key}

theorem grown_live_iff (full : Full hl) (blank : Blank hl fresh) (expanded : expand hl fresh = some grown) :
    grown.Live p ↔ p < hl.size := by
  obtain ⟨size,lower,upper⟩ := expand_spec expanded
  constructor
  · intro occupied
    by_contra high
    have bound := occupied.lt
    rw [Live,upper p (by omega) (by omega)] at occupied
    exact blank p (by omega) (by omega) occupied
  · intro bound
    rw [Live,lower p bound]
    exact full p bound

theorem grown_pair (expanded : expand hl fresh = some grown) (bound : p < hl.size) : grown.pairAt p = hl.pairAt p := by
  rw [pairAt,pairAt,(expand_spec expanded).2.1 p bound]

theorem grown_stores (full : Full hl) (blank : Blank hl fresh) (expanded : expand hl fresh = some grown) :
    grown.Stores h p ↔ hl.Stores h p := by
  constructor
  · intro stores
    have bound := (grown_live_iff full blank expanded).mp stores.1
    exact ⟨full p bound,(grown_pair expanded bound).symm.trans stores.2⟩
  · intro stores
    have bound := stores.1.lt
    exact ⟨(grown_live_iff full blank expanded).mpr bound,(grown_pair expanded bound).trans stores.2⟩

theorem grown_distinct (full : Full hl) (blank : Blank hl fresh) (expanded : expand hl fresh = some grown)
    (distinct : hl.Distinct) : grown.Distinct := by
  intro p q left right same
  have bound := (grown_live_iff full blank expanded).mp left
  have bound' := (grown_live_iff full blank expanded).mp right
  rw [grown_pair expanded bound,grown_pair expanded bound'] at same
  exact distinct p q (full p bound) (full q bound') same

theorem landing_bounds (positive : 0 < hl.size) (str : Key) : hl.size ≤ landing hl str ∧ landing hl str < hl.size*2 := by
  have inside := home_lt (show 0 < hl.size*2 by omega) (hashesOf str)
  rw [landing]
  omega

theorem landing_word (positive : 0 < hl.size) (small : hl.size*2 < 2^32) (str : Key) : landing hl str ≠ minusOne := by
  have bounds := landing_bounds positive str
  rw [minusOne]
  omega

-- From its new home the new key runs over old slots up to the upper half.
theorem grown_probe (positive : 0 < hl.size) (full : Full hl) (blank : Blank hl fresh)
    (expanded : expand hl fresh = some grown) (absent : ∀ p, ¬ hl.Stores (hashesOf str) p) :
    probe grown (hashesOf str) = some (.empty (landing hl str)) := by
  have size := (expand_spec expanded).1
  have inside := home_lt (show 0 < hl.size*2 by omega) (hashesOf str)
  obtain ⟨low,high⟩ := landing_bounds positive str
  have before : home (hl.size*2) (hashesOf str) ≤ landing hl str := Nat.le_max_left ..
  have here : nth (hl.size*2) (home (hl.size*2) (hashesOf str)) (landing hl str-home (hl.size*2) (hashesOf str)) =
      landing hl str := by
    rw [nth_ahead (by omega)]
    omega
  rw [probe_iff (by omega),size,← here]
  refine .empty (by omega) ?_ ?_
  · intro j below
    have lower : home (hl.size*2) (hashesOf str)+j < hl.size := by
      rw [landing] at below
      omega
    rw [nth_ahead (by omega)]
    have occupied := (grown_live_iff full blank expanded).mpr lower
    exact ⟨occupied,fun hits => absent _ ((grown_stores full blank expanded).mp ⟨occupied,hits⟩)⟩
  · rw [here,grown_live_iff full blank expanded]
    omega

theorem full_set_retries (positive : 0 < hl.size) (full : Full hl) (expanded : expand hl fresh = some grown)
    (absent : ∀ p, ¬ hl.Stores (hashesOf str) p) (ud : Option υ) (mallocs : List (Nat → Slot υ)) :
    khlistSet hl str ud (fresh::mallocs) = khlistSet grown str ud mallocs := by
  rw [khlistSet,place_full positive full absent,expanded,Option.bind_some]

theorem blank_set (positive : 0 < hl.size) (full : Full hl) (blank : Blank hl fresh)
    (expanded : expand hl fresh = some grown) (absent : ∀ p, ¬ hl.Stores (hashesOf str) p) (ud : Option υ)
    (mallocs : List (Nat → Slot υ)) : khlistSet hl str ud (fresh::mallocs) =
      some (landing hl str,grown.put (landing hl str) (occupy (hashesOf str) ud)) := by
  have size := (expand_spec expanded).1
  rw [full_set_retries positive full expanded absent]
  obtain ⟨again,same,_⟩ := set_place (show 0 < grown.size by omega) str ud mallocs
  rw [same,place,grown_probe positive full blank expanded absent]
  rfl

-- A retry that gives up leaves the doubled table behind.
theorem failed_growth {after : Khlist υ} {ud : Option υ} {mallocs : List (Nat → Slot υ)} (positive : 0 < hl.size)
    (small : hl.size*2 < 2^32) (full : Full hl) (expanded : expand hl fresh = some grown)
    (absent : ∀ p, ¬ hl.Stores (hashesOf str) p) (ran : khlistSet hl str ud (fresh::mallocs) = some (minusOne,after)) :
    ¬ Blank hl fresh ∧ hl.size*2 ≤ after.size := by
  have size := (expand_spec expanded).1
  constructor
  · intro blank
    have set := blank_set positive full blank expanded absent ud mallocs
    exact landing_word positive small str (Prod.mk.inj (Option.some.inj (set.symm.trans ran))).1
  · rw [full_set_retries positive full expanded absent] at ran
    have grew := set_size_le (by omega) ran
    omega

structure Resettled (hl after : Khlist υ) (str : Key) (ud : Option υ) : Prop where
  size : after.size = hl.size*2
  live : ∀ p, after.Live p ↔ p < hl.size ∨ p = landing hl str
  distinct : after.Distinct
  old : ∀ p < hl.size, after.slot p = hl.slot p
  new : after.slot (landing hl str) = occupy (hashesOf str) ud

theorem blank_resettled (positive : 0 < hl.size) (full : Full hl) (distinct : hl.Distinct) (blank : Blank hl fresh)
    (expanded : expand hl fresh = some grown) (absent : ∀ p, ¬ hl.Stores (hashesOf str) p) (ud : Option υ) :
    Resettled hl (grown.put (landing hl str) (occupy (hashesOf str) ud)) str ud := by
  obtain ⟨size,lower,_⟩ := expand_spec expanded
  obtain ⟨low,high⟩ := landing_bounds positive str
  have room : landing hl str < grown.size := by omega
  have vacant : ¬ grown.Live (landing hl str) := by
    rw [grown_live_iff full blank expanded]
    omega
  refine ⟨size,?_,?_,?_,slot_put_here room⟩
  · intro p
    rw [occupy_live_iff room,grown_live_iff full blank expanded]
    exact or_comm
  · refine (occupy_distinct_iff (grown_distinct full blank expanded distinct) room vacant).mpr ?_
    intro q stores
    exact absent q ((grown_stores full blank expanded).mp stores)
  · intro p bound
    rw [slot_put_other (by omega)]
    exact lower p bound

end Blanks

section Lookups
variable {hl after : Khlist υ} {str : Key} {ud : Option υ}

theorem Resettled.path_iff (settled : Resettled hl after str ud) (positive : 0 < hl.size) (bound : p < hl.size) :
    after.OnPath h p ↔ home (hl.size*2) h ≤ p ∨
      (home (hl.size*2) h = hl.size*2-1 ∧ landing hl str = hl.size*2-1) := by
  have live : after.Live = fun q => q < hl.size ∨ q = landing hl str := by
    funext q
    exact propext (settled.live q)
  obtain ⟨low,high⟩ := landing_bounds positive str
  rw [OnPath,settled.size,live]
  exact doubled_path_iff low high bound (home_lt (by omega) h)

theorem Resettled.old_stored (settled : Resettled hl after str ud) (stores : hl.Stores h p) : after.Stores h p := by
  have bound := stores.1.lt
  refine ⟨(settled.live p).mpr (Or.inl bound),?_⟩
  rw [Holds,pairAt,settled.old p bound]
  exact stores.2

theorem Resettled.old_iff (settled : Resettled hl after str ud) (stores : hl.Stores (hashesOf key) p) :
    (∃ q, q ≠ minusOne ∧ khlistGet after key = some (q,some (hl.slot p).ud)) ↔
      home (hl.size*2) (hashesOf key) ≤ p ∨
        (home (hl.size*2) (hashesOf key) = hl.size*2-1 ∧ landing hl str = hl.size*2-1) := by
  have bound := stores.1.lt
  have positive : 0 < hl.size := by omega
  have still := settled.old_stored stores
  rw [← settled.path_iff positive bound,← settled.old p bound]
  constructor
  · rintro ⟨q,_,found⟩
    by_contra cut
    have size := settled.size
    have missed := get_missed (show 0 < after.size by omega) fun r also => settled.distinct.only still also ▸ cut
    cases Option.some.inj (found.symm.trans missed)
  · intro path
    exact ⟨p,position_word bound,get_stored settled.distinct still path⟩

theorem Resettled.new_stored (settled : Resettled hl after str ud) (positive : 0 < hl.size) :
    after.Stores (hashesOf str) (landing hl str) ∧ after.OnPath (hashesOf str) (landing hl str) := by
  obtain ⟨low,high⟩ := landing_bounds positive str
  have inside := home_lt (show 0 < hl.size*2 by omega) (hashesOf str)
  refine ⟨⟨(settled.live _).mpr (Or.inr rfl),?_⟩,?_⟩
  · rw [Holds,pairAt,settled.new]
    rfl
  · rw [OnPath,settled.size]
    refine ⟨landing hl str-home (hl.size*2) (hashesOf str),by omega,?_,?_⟩
    · rw [landing] at low high ⊢
      rw [nth_ahead (by omega)]
      omega
    · intro j below
      rw [landing] at below
      rw [nth_ahead (by omega),settled.live]
      exact Or.inl (by omega)

theorem Resettled.new_found (settled : Resettled hl after str ud) (positive : 0 < hl.size) :
    khlistGet after str = some (landing hl str,some ud) := by
  obtain ⟨stores,path⟩ := settled.new_stored positive
  rw [get_stored settled.distinct stores path,settled.new]
  rfl

end Lookups

theorem full_growth_iff {hl : Khlist υ} {str : Key} (keys : Set Key) (positive : 0 < hl.size) (small : hl.size*2 < 2^32)
    (full : Full hl) (distinct : hl.Distinct) (absent : ∀ p, ¬ hl.Stores (hashesOf str) p) (ud : Option υ) :
    khlistSet hl str ud [] = some (minusOne,hl) ∧
    ∀ fresh mallocs,
      (∀ ret after, khlistSet hl str ud (fresh::mallocs) = some (ret,after) → ret ≠ minusOne →
        (Kept keys hl after str ud ret ↔ Blank hl fresh ∧ StillReached keys hl str)) ∧
      (Blank hl fresh → ∃ ret after, khlistSet hl str ud (fresh::mallocs) = some (ret,after) ∧ ret ≠ minusOne) ∧
      ∀ after, khlistSet hl str ud (fresh::mallocs) = some (minusOne,after) → ¬ Blank hl fresh ∧ hl.size*2 ≤ after.size := by
  refine ⟨place_full positive full absent ud _,?_⟩
  intro fresh mallocs
  obtain ⟨grown,expanded⟩ : ∃ grown, expand hl fresh = some grown := ⟨_,dif_pos (by omega)⟩
  have size := (expand_spec expanded).1
  refine ⟨?_,?_,fun after ran => failed_growth positive small full expanded absent ran⟩
  · intro ret after ran _
    by_cases blank : Blank hl fresh
    · have settled := blank_resettled positive full distinct blank expanded absent ud
      have set := blank_set positive full blank expanded absent ud mallocs
      cases Option.some.inj (set.symm.trans ran)
      constructor
      · intro kept
        refine ⟨blank,?_⟩
        intro key member p stores
        exact (settled.old_iff stores).mp (kept.old key member p stores)
      · rintro ⟨_,reached⟩
        refine ⟨?_,settled.new_found positive,settled.live⟩
        intro key member p stores
        exact (settled.old_iff stores).mpr (reached key member p stores)
    · refine ⟨fun kept => absurd ?_ blank,fun both => absurd both.1 blank⟩
      -- a fresh slot that looks occupied survives as an entry nobody set
      intro p low high marked
      rw [full_set_retries positive full expanded absent] at ran
      have occupied : grown.Live p := by
        rw [Live,(expand_spec expanded).2.2 p low high]
        exact marked
      obtain ⟨alive,apart⟩ := set_keeps_live (by omega) ran p occupied
      rcases (kept.marked p).mp alive with old | new
      · omega
      · exact apart new
  · intro blank
    exact ⟨_,_,blank_set positive full blank expanded absent ud mallocs,landing_word positive small str⟩

-- The condition on a call that expands; every other call meets it.
def GrowsWell (keys : Set Key) (s : Session υ) : Call υ → Prop
  | .set str _ (fresh::_) => Full s.table → s.firsts str = none → Blank s.table fresh ∧ StillReached keys s.table str
  | .set _ _ [] => True
  | .get _ => True

section Building
variable {keys : Set Key} {s next : Session υ} {str : Key}

theorem resettled_filed {after : Khlist υ} {ud : Option υ} (filed : Filed keys s) (full : Full s.table)
    (member : str ∈ keys) (fresh : s.firsts str = none) (settled : Resettled s.table after str ud)
    (reached : StillReached keys s.table str) : Filed keys ⟨after,record s str ud (landing s.table str)⟩ := by
  have positive := filed.positive
  have size := settled.size
  obtain ⟨stores,path⟩ := settled.new_stored positive
  have here : record s str ud (landing s.table str) str = some (landing s.table str,ud) :=
    record_here (position_word stores.1.lt)
  refine ⟨?_,?_,?_,?_⟩
  · show 0 < after.size
    omega
  · intro other p data taken
    by_cases same : other = str
    · subst same
      cases Option.some.inj (here.symm.trans taken)
      exact ⟨stores,path,congrArg Slot.ud settled.new⟩
    · have held := (record_other same).symm.trans taken
      obtain ⟨old,_,kept⟩ := filed.filed other p data held
      have bound := old.1.lt
      refine ⟨settled.old_stored old,?_,(congrArg Slot.ud (settled.old p bound)).trans kept⟩
      exact (settled.path_iff positive bound).mpr (reached other (filed.known other p data held) p old)
  · intro p occupied
    rcases (settled.live p).mp occupied with old | rfl
    · obtain ⟨other,data,taken⟩ := filed.owned p (full p old)
      have away : other ≠ str := fun same => by rw [same,fresh] at taken; cases taken
      exact ⟨other,data,(record_other away).trans taken⟩
    · exact ⟨str,ud,here⟩
  · intro other p data taken
    by_cases same : other = str
    · exact same ▸ member
    · exact filed.known other p data ((record_other same).symm.trans taken)

theorem step_built {call : Call υ} (separated : Set.InjOn pairOf keys) (filed : Filed keys s) (member : call.key ∈ keys)
    (well : GrowsWell keys s call) (ran : step s call = some next) : Filed keys next := by
  cases call with
  | get str =>
    obtain ⟨_,_,rfl⟩ := Option.map_eq_some_iff.mp ran
    exact filed
  | set str ud mallocs =>
    have used : str ∈ keys := member
    obtain ⟨⟨ret,after⟩,set,rfl⟩ := Option.map_eq_some_iff.mp ran
    cases mallocs with
    | nil =>
      refine pass_filed filed separated used set ?_
      intro fresh filled result
      cases result
      rw [refused_unchanged]
      exact filed
    | cons block mallocs =>
      refine pass_filed filed separated used set ?_
      intro fresh filled result
      obtain ⟨blank,reached⟩ := well filled fresh
      obtain ⟨grown,expanded,_⟩ := Option.bind_eq_some_iff.mp result
      have absent := filed.absent separated used fresh
      cases Option.some.inj (set.symm.trans (blank_set filed.positive filled blank expanded absent ud mallocs))
      exact resettled_filed filed filled used fresh
        (blank_resettled filed.positive filled (filed.distinct separated) blank expanded absent ud) reached

-- A table built by sets, earlier expansions included as long as they met the
-- condition themselves.
theorem growth_kept_iff {sz : UInt32} {header block : Bool} {hl : Khlist υ} {calls : List (Call υ)}
    (made : khlistCreate sz header block = some hl) (nonzero : sz ≠ 0) (separated : Set.InjOn pairOf keys)
    (uses : ∀ call ∈ calls, call.key ∈ keys) (well : Along step (GrowsWell keys) (start hl) calls)
    (ran : exec step (start hl) calls = some s) (full : Full s.table) (small : s.table.size*2 < 2^32)
    (member : str ∈ keys) (new : s.firsts str = none) (ud : Option υ) :
    khlistSet s.table str ud [] = some (minusOne,s.table) ∧
    ∀ fresh mallocs,
      (∀ ret after, khlistSet s.table str ud (fresh::mallocs) = some (ret,after) → ret ≠ minusOne →
        (Kept keys s.table after str ud ret ↔ Blank s.table fresh ∧ StillReached keys s.table str)) ∧
      (Blank s.table fresh → ∃ ret after, khlistSet s.table str ud (fresh::mallocs) = some (ret,after) ∧ ret ≠ minusOne) ∧
      ∀ after, khlistSet s.table str ud (fresh::mallocs) = some (minusOne,after) →
        ¬ Blank s.table fresh ∧ s.table.size*2 ≤ after.size := by
  have filed : Filed keys s := by
    refine exec_guarded ?_ (start_filed keys made nonzero) (along_and.mpr ⟨along_of_forall uses,well⟩) ran
    intro s call next filed good one
    exact step_built separated filed good.1 good.2 one
  exact full_growth_iff keys filed.positive small full (filed.distinct separated)
    (filed.absent separated member new) ud

end Building

def keyD : Key := [100]
def keyF : Key := [102]

theorem d_hashes : hashesOf keyD = ⟨3442281694,0x5f7986f2,0x686ef4fc⟩ := by decide +kernel

theorem f_hashes : hashesOf keyF = ⟨1454856205,0xa85c82b7,0x1e783b90⟩ := by decide +kernel

-- `c` and `f` sit in their home slots 0 and 1, which stay their homes among four.
def homeCalls : List (Call Nat) := [.set keyC (some 1) [],.set keyF (some 2) []]
def homeTable : Khlist Nat :=
  ⟨2,[⟨0x312e40bb,0x94c21b3f,1,some 1⟩,⟨0xa85c82b7,0x1e783b90,1,some 2⟩],rfl,pair_word⟩

def homeKeys : Finset Key := {keyC,keyF,keyD}

theorem home_separated : Set.InjOn pairOf (homeKeys : Set Key) := separated_of_apart (by decide +kernel)

theorem home_reached : StillReached homeKeys homeTable keyD := by
  have inside : ∀ key ∈ homeKeys, ∀ p < 2, homeTable.Stores (hashesOf key) p → home 4 (hashesOf key) ≤ p := by
    decide +kernel
  intro key member p stores
  exact Or.inl (inside key member p stores.1.lt stores)

theorem home_growth_kept : ∃ s ret after, exec step (start pairTable) homeCalls = some s ∧ s.table = homeTable ∧
    khlistSet s.table keyD (some 3) [fun _ => cleared] = some (ret,after) ∧
    Kept homeKeys s.table after keyD (some 3) ret := by
  have made : khlistCreate 2 true true = some pairTable := rfl
  have uses : ∀ call ∈ homeCalls, call.key ∈ homeKeys := by decide
  have built : (exec step (start pairTable) homeCalls).map (fun s => (s.table,s.firsts keyD)) = some (homeTable,none) := by
    simp only [homeCalls,exec,step,khlistSet,c_hashes,f_hashes]
    decide
  obtain ⟨s,ran,seen⟩ := Option.map_eq_some_iff.mp built
  obtain ⟨table,new⟩ := Prod.mk.inj seen
  have full : Full s.table := by
    rw [table]
    show ∀ p < 2, homeTable.Live p
    decide
  have small : s.table.size*2 < 2^32 := by rw [table]; decide
  have blank : Blank s.table fun _ => cleared := by
    intro p low high marked
    cases marked
  obtain ⟨_,grows⟩ := growth_kept_iff made (by decide) home_separated uses
    ⟨trivial,fun _ _ => ⟨trivial,fun _ _ => trivial⟩⟩ ran full small (show keyD ∈ homeKeys by decide) new (some 3)
  obtain ⟨kept,returns,_⟩ := grows (fun _ => cleared) []
  obtain ⟨ret,after,set,returned⟩ := returns blank
  exact ⟨s,ret,after,ran,table,set,(kept ret after set returned).mpr ⟨blank,by rw [table]; exact home_reached⟩⟩

-- `a` in slot 1 gets the home slot 3 among four and is not found any more; and
-- a fresh slot that happens to hold a 1 passes for an entry.
def staleSlot (p : Nat) : Slot Nat := if p = 3 then ⟨7,7,1,none⟩ else cleared

theorem growth_loses_contents : khlistCreate 2 true true = some pairTable ∧
    Set.InjOn pairOf (({keyA,keyB,keyC} : Finset Key) : Set Key) ∧ Full displacedTable ∧
    (exec step (start pairTable) displacedCalls).map Session.table = some displacedTable ∧
    khlistGet displacedTable keyA = some (1,some (some 1)) ∧
    (khlistSet displacedTable keyC (some 3) [fun _ => cleared]).map Prod.fst = some 2 ∧
    (khlistSet displacedTable keyC (some 3) [fun _ => cleared]).bind (fun set => khlistGet set.2 keyA) =
      some (minusOne,none) ∧
    (khlistSet homeTable keyD (some 3) [staleSlot]).map (fun set => (set.1,decide (set.2.Live 3))) = some (2,true) := by
  have separated : Set.InjOn pairOf (({keyA,keyB,keyC} : Finset Key) : Set Key) := separated_of_apart (by decide +kernel)
  have full : Full displacedTable := by
    show ∀ p < 2, displacedTable.Live p
    decide
  refine ⟨rfl,separated,full,displaced_built,?_⟩
  simp only [khlistGet,khlistSet,a_hashes,c_hashes,d_hashes]
  exact ⟨by decide,by decide,by decide,by decide⟩

end EventLib.HmapExpand
