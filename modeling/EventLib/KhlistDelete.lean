import EventLib.KhlistDictionary

namespace EventLib.HmapDelete
open LinearProbe Hmap Khlist HmapDictionary LabelledRuns

variable {υ : Type}

theorem clear_distinct {hl : Khlist υ} (distinct : hl.Distinct) (bound : p < hl.size) : (hl.put p cleared).Distinct := by
  intro q r left right same
  obtain ⟨away,occupied⟩ := (clear_live_iff bound).mp left
  obtain ⟨away',occupied'⟩ := (clear_live_iff bound).mp right
  rw [put_pair_other away,put_pair_other away'] at same
  exact distinct q r occupied occupied' same

theorem clear_path_iff {hl : Khlist υ} (bound : p < hl.size) :
    (hl.put p cleared).OnPath h q ↔ hl.OnPath h q ∧ ¬ Crosses hl.size (home hl.size h) p q := by
  have live : (hl.put p cleared).Live = fun r => r ≠ p ∧ hl.Live r := by
    funext r
    exact propext (clear_live_iff bound)
  rw [OnPath,live]
  exact path_without_iff

section Insertions

def SameSize (s : Session υ) (call : Call υ) : Prop := After step (fun next => next.table.size = s.table.size) s call

instance (s : Session υ) (call : Call υ) : Decidable (SameSize s call) := inferInstanceAs (Decidable (After ..))

theorem step_filed {keys : Set Key} {s next : Session υ} {call : Call υ} (separated : Set.InjOn pairOf keys)
    (filed : Filed keys s) (member : call.key ∈ keys) (fixed : SameSize s call) (ran : step s call = some next) :
    Filed keys next := by
  have size := fixed next ran
  cases call with
  | get str =>
    obtain ⟨_,_,rfl⟩ := Option.map_eq_some_iff.mp ran
    exact filed
  | set str ud mallocs =>
    have used : str ∈ keys := member
    obtain ⟨⟨ret,after⟩,set,rfl⟩ := Option.map_eq_some_iff.mp ran
    refine pass_filed filed separated used (set_unexpanded filed.positive set size) ?_
    intro fresh filled gave_up
    cases Option.some.inj gave_up
    rw [refused_unchanged]
    exact filed

theorem run_filed {keys : Set Key} {s last : Session υ} {calls : List (Call υ)} (separated : Set.InjOn pairOf keys)
    (filed : Filed keys s) (uses : ∀ call ∈ calls, call.key ∈ keys) (fixed : Along step SameSize s calls)
    (ran : exec step s calls = some last) : Filed keys last := by
  refine exec_guarded ?_ filed (along_and.mpr ⟨along_of_forall uses,fixed⟩) ran
  intro s call next filed good one
  exact step_filed separated filed good.1 good.2 one

theorem kept_iff {keys : Set Key} {s : Session υ} (separated : Set.InjOn pairOf keys) (filed : Filed keys s)
    (taken : s.firsts str = some (p,ud)) (held : s.firsts other = some (q,data)) (apart : other ≠ str) :
    khlistGet (s.table.put p cleared) other = khlistGet s.table other ↔
      ¬ Crosses s.table.size (home s.table.size (hashesOf other)) p q := by
  obtain ⟨stores,_,_⟩ := filed.filed str p ud taken
  obtain ⟨keeps,path,kept⟩ := filed.filed other q data held
  have away : q ≠ p := by
    rintro rfl
    exact apart (separated (filed.known _ _ _ held) (filed.known _ _ _ taken) (keeps.2.symm.trans stores.2))
  have bound := stores.1.lt
  have still : (s.table.put p cleared).Stores (hashesOf other) q :=
    ⟨(clear_live_iff bound).mpr ⟨away,keeps.1⟩,(put_pair_other away).trans keeps.2⟩
  have slot : ((s.table.put p cleared).slot q).ud = data := by rw [slot_put_other away,kept]
  have found := get_stored_iff (clear_distinct (filed.distinct separated) bound) still
  rw [slot,clear_path_iff bound] at found
  rw [filed.get separated held,found]
  exact and_iff_right path

theorem deleted_gone {keys : Set Key} {s : Session υ} (separated : Set.InjOn pairOf keys) (filed : Filed keys s)
    (taken : s.firsts str = some (p,ud)) : khlistGet (s.table.put p cleared) str = some (minusOne,none) := by
  obtain ⟨stores,_,_⟩ := filed.filed str p ud taken
  have bound := stores.1.lt
  refine get_missed filed.positive ?_
  intro q also
  obtain ⟨away,occupied⟩ := (clear_live_iff bound).mp also.1
  have same := (filed.distinct separated).only stores ⟨occupied,(put_pair_other away).symm.trans also.2⟩
  exact absurd same away

theorem deletion_keeps_others_iff {sz : UInt32} {header block : Bool} {hl : Khlist υ} {keys : Set Key}
    {calls : List (Call υ)} {s : Session υ} {str : Key} {p : Nat} {ud : Option υ}
    (made : khlistCreate sz header block = some hl) (nonzero : sz ≠ 0) (separated : Set.InjOn pairOf keys)
    (uses : ∀ call ∈ calls, call.key ∈ keys) (fixed : Along step SameSize (start hl) calls)
    (ran : exec step (start hl) calls = some s) (taken : s.firsts str = some (p,ud)) :
    ∃ after, khlistDel s.table str = some (p,some ud,after) ∧ khlistGet after str = some (minusOne,none) ∧
      ((∀ other q data, other ≠ str → s.firsts other = some (q,data) →
          khlistGet s.table other = some (q,some data) ∧ khlistGet after other = khlistGet s.table other) ↔
        ∀ other q data, other ≠ str → s.firsts other = some (q,data) →
          ¬ Crosses s.table.size (home s.table.size (hashesOf other)) p q) := by
  have filed := run_filed separated (start_filed keys made nonzero) uses fixed ran
  obtain ⟨stores,path,data⟩ := filed.filed str p ud taken
  refine ⟨s.table.put p cleared,?_,deleted_gone separated filed taken,?_⟩
  · rw [del_stored (filed.distinct separated) stores path,data]
  · constructor
    · intro kept other q data apart held
      exact (kept_iff separated filed taken held apart).mp (kept other q data apart held).2
    · intro clear other q data apart held
      exact ⟨filed.get separated held,(kept_iff separated filed taken held apart).mpr (clear other q data apart held)⟩

-- `c` has home slot 0, so deleting `a` from slot 1 is not on its way.
def keyC : Key := [99]
def apartCalls : List (Call Nat) := [.set keyA (some 1) [],.set keyC (some 2) []]

theorem c_hashes : hashesOf keyC = ⟨829974172,0x312e40bb,0x94c21b3f⟩ := by decide +kernel

theorem apart_separated : Set.InjOn pairOf (({keyA,keyC} : Finset Key) : Set Key) :=
  separated_of_apart (by decide +kernel)

theorem apart_deletion : ∃ s after, exec step (start pairTable) apartCalls = some s ∧
    khlistDel s.table keyA = some (1,some (some 1),after) ∧ khlistGet after keyA = some (minusOne,none) := by
  have made : khlistCreate 2 true true = some pairTable := rfl
  have uses : ∀ call ∈ apartCalls, call.key ∈ ({keyA,keyC} : Finset Key) := by decide
  have fixed : Along step SameSize (start pairTable) apartCalls := by decide +kernel
  have stored : (exec step (start pairTable) apartCalls).map (fun s => s.firsts keyA) = some (some (1,some 1)) := by
    simp only [apartCalls,exec,step,khlistSet,a_hashes,c_hashes]
    decide
  obtain ⟨s,ran,taken⟩ := Option.map_eq_some_iff.mp stored
  obtain ⟨after,deleted,gone,_⟩ := deletion_keeps_others_iff made (by decide) apart_separated uses fixed ran taken
  exact ⟨s,after,ran,deleted,gone⟩

-- `b` was displaced from slot 1 to slot 0 by `a`; once `a` is gone its lookup
-- stops at slot 1.
def displacedCalls : List (Call Nat) := [.set keyA (some 1) [],.set keyB (some 2) []]
def displacedTable : Khlist Nat :=
  ⟨2,[⟨0xccb33eff,0xa2f56b8c,1,some 2⟩,⟨0x8bb369ca,0x1d93cc30,1,some 1⟩],rfl,pair_word⟩

theorem displaced_fixed : Along step SameSize (start pairTable) displacedCalls := by decide +kernel

theorem displaced_built : (exec step (start pairTable) displacedCalls).map Session.table = some displacedTable := by
  simp only [displacedCalls,exec,step,khlistSet,a_hashes,b_hashes]
  decide

theorem deletion_hides_displaced : khlistCreate 2 true true = some pairTable ∧
    Set.InjOn pairOf (({keyA,keyB} : Finset Key) : Set Key) ∧ Along step SameSize (start pairTable) displacedCalls ∧
    ∃ s, exec step (start pairTable) displacedCalls = some s ∧ s.table = displacedTable ∧
      khlistDel s.table keyA = some (1,some (some 1),s.table.put 1 cleared) ∧
      khlistGet s.table keyB = some (0,some (some 2)) ∧
      khlistGet (s.table.put 1 cleared) keyB = some (minusOne,none) := by
  obtain ⟨s,ran,table⟩ := Option.map_eq_some_iff.mp displaced_built
  refine ⟨rfl,pair_separated,displaced_fixed,s,ran,table,?_⟩
  rw [table]
  simp only [khlistDel,khlistGet,a_hashes,b_hashes]
  decide

end Insertions

section Absent

def FreeCleared (hl : Khlist υ) : Prop := ∀ p < hl.size, ¬ hl.Live p → hl.slot p = cleared

theorem create_cleared {sz : UInt32} {header table : Bool} {hl : Khlist υ}
    (made : khlistCreate sz header table = some hl) : FreeCleared hl := by
  unfold khlistCreate at made
  split at made
  · cases Option.some.inj made
    intro p bound _
    have inside : p < sz.toNat := bound
    simp [slot,inside]
  · cases made

theorem set_cleared {hl after : Khlist υ} {mallocs : List (Nat → Slot υ)} (positive : 0 < hl.size) (clean : FreeCleared hl)
    (ran : khlistSet hl str ud mallocs = some (ret,after)) (size : after.size = hl.size) : FreeCleared after := by
  have spec := place_spec positive (hashesOf str) ud (some (minusOne,hl))
  rw [set_unexpanded positive ran size] at spec
  cases spec with
  | present stores path => exact clean
  | placed bound vacant path cuts =>
    intro q inside free
    have away : q ≠ ret := fun same => free ((occupy_live_iff bound).mpr (Or.inl same))
    rw [slot_put_other away]
    exact clean q inside fun live => free ((occupy_live_iff bound).mpr (Or.inr live))
  | full filled gave_up =>
    cases Option.some.inj gave_up
    exact clean

structure Clean (s : Session υ) : Prop where
  positive : 0 < s.table.size
  cleared : FreeCleared s.table

theorem step_clean {s next : Session υ} {call : Call υ} (clean : Clean s) (fixed : SameSize s call)
    (ran : step s call = some next) : Clean next := by
  have size := fixed next ran
  cases call with
  | get str =>
    obtain ⟨_,_,rfl⟩ := Option.map_eq_some_iff.mp ran
    exact clean
  | set str ud mallocs =>
    obtain ⟨⟨ret,after⟩,set,rfl⟩ := Option.map_eq_some_iff.mp ran
    exact ⟨size ▸ clean.positive,set_cleared clean.positive clean.cleared set size⟩

theorem del_absent {hl : Khlist υ} (positive : 0 < hl.size) (clean : FreeCleared hl)
    (absent : ∀ p, ¬ hl.Stores (hashesOf str) p) :
    (∃ p < hl.size, ¬ hl.Live p ∧ khlistDel hl str = some (p,some none,hl)) ∨
      (∀ p < hl.size, hl.Live p) ∧ khlistDel hl str = some (minusOne,none,hl) := by
  obtain ⟨outcome,probed,spec⟩ := probe_spec positive (hashesOf str)
  rw [khlistDel,probed]
  cases spec with
  | found stores path => exact absurd stores (absent _)
  | @empty p bound vacant path cuts =>
    have free := clean p bound vacant
    refine Or.inl ⟨p,bound,vacant,?_⟩
    simp only [Option.map_some,put_same bound free]
    rw [free]
    rfl
  | wrapped filled => exact Or.inr ⟨fun p bound => (filled p bound).1,rfl⟩

def Harmless (hl : Khlist υ) (str : Key) : Prop :=
  khlistDel hl str = some (minusOne,none,hl) ∧ khlistGet hl str = some (minusOne,none)

theorem absent_deletion_harmless_iff {sz : UInt32} {header block : Bool} {hl : Khlist υ} {calls : List (Call υ)}
    {s : Session υ} {str : Key} (made : khlistCreate sz header block = some hl) (nonzero : sz ≠ 0)
    (fixed : Along step SameSize (start hl) calls) (ran : exec step (start hl) calls = some s)
    (absent : ∀ p, ¬ s.table.Stores (hashesOf str) p) :
    Harmless s.table str ↔ ∀ p < s.table.size, s.table.Live p := by
  have clean : Clean s := exec_guarded (fun _ _ _ clean same one => step_clean clean same one)
    ⟨create_positive made nonzero,create_cleared made⟩ fixed ran
  have missed := get_missed clean.positive fun q stores => absurd stores (absent q)
  rcases del_absent clean.positive clean.cleared absent with ⟨p,bound,vacant,deleted⟩ | ⟨filled,deleted⟩
  · constructor
    · intro harmless
      have reported := congrArg Prod.fst (Option.some.inj (deleted.symm.trans harmless.1))
      exact absurd reported (position_word bound)
    · intro filled
      exact absurd (filled p bound) vacant
  · exact ⟨fun _ => filled,fun _ => ⟨deleted,missed⟩⟩

theorem full_deletion_harmless : ∃ s, exec step (start pairTable) displacedCalls = some s ∧ Harmless s.table keyC := by
  have made : khlistCreate 2 true true = some pairTable := rfl
  obtain ⟨s,ran,table⟩ := Option.map_eq_some_iff.mp displaced_built
  have absent : ∀ p, ¬ s.table.Stores (hashesOf keyC) p := by
    intro p stores
    have inside : ∀ p < 2, ¬ displacedTable.Stores (hashesOf keyC) p := by
      rw [c_hashes]
      decide
    rw [table] at stores
    exact inside p stores.1.lt stores
  have filled : ∀ p < s.table.size, s.table.Live p := by
    rw [table]
    decide
  exact ⟨s,ran,(absent_deletion_harmless_iff made (by decide) displaced_fixed ran absent).mpr filled⟩

-- The probe for `a` stops at its empty home slot 1, which is reported as a hit.
theorem absent_deletion_reported_found : khlistCreate 2 true true = some pairTable ∧
    (∀ p < 2, ¬ pairTable.Stores (hashesOf keyA) p) ∧ khlistDel pairTable keyA = some (1,some none,pairTable) ∧
    khlistGet pairTable keyA = some (minusOne,none) := by
  simp only [khlistDel,khlistGet,a_hashes]
  exact ⟨rfl,by decide,by decide,by decide⟩

end Absent

section Duplicates

inductive Op (υ : Type) where
  | set (str : Key) (ud : Option υ) (mallocs : List (Nat → Slot υ))
  | get (str : Key)
  | del (str : Key)

def apply (hl : Khlist υ) : Op υ → Option (Khlist υ)
  | .set str ud mallocs => (khlistSet hl str ud mallocs).map Prod.snd
  | .get str => (khlistGet hl str).map fun _ => hl
  | .del str => (khlistDel hl str).map fun result => result.2.2

def Unexpanded (hl : Khlist υ) (op : Op υ) : Prop := After apply (fun next => next.size = hl.size) hl op

instance (hl : Khlist υ) (op : Op υ) : Decidable (Unexpanded hl op) := inferInstanceAs (Decidable (After ..))

def StaysDistinct (hl : Khlist υ) (op : Op υ) : Prop := After apply Distinct hl op

-- A key that is set while it is stored can still be reached from its home.
def SetsReachable (hl : Khlist υ) : Op υ → Prop
  | .set str _ _ => ∀ q, hl.Stores (hashesOf str) q → hl.OnPath (hashesOf str) q
  | .get _ => True
  | .del _ => True

instance (hl : Khlist υ) : ∀ op, Decidable (SetsReachable hl op)
  | .set str _ _ => decidable_of_iff (∀ q < hl.size, hl.Stores (hashesOf str) q → hl.OnPath (hashesOf str) q)
      ⟨fun inside q stores => inside q stores.1.lt stores,fun all q _ => all q⟩
  | .get _ => isTrue trivial
  | .del _ => isTrue trivial

theorem occupy_distinct_iff {hl : Khlist υ} (distinct : hl.Distinct) (bound : p < hl.size) (vacant : ¬ hl.Live p) :
    (hl.put p (occupy h ud)).Distinct ↔ ∀ q, ¬ hl.Stores h q := by
  have here : (hl.put p (occupy h ud)).Stores h p := occupy_stores bound
  constructor
  · intro after q stores
    have same := after.only here (occupy_stores_other vacant stores).1
    exact vacant (same ▸ stores.1)
  · intro absent
    -- only the new slot can clash, and its pair was not there before
    have alone : ∀ q, hl.Live q → (hl.put p (occupy h ud)).pairAt q ≠ (hl.put p (occupy h ud)).pairAt p := by
      intro q occupied clash
      have away : q ≠ p := fun same => vacant (same ▸ occupied)
      exact absent q ⟨occupied,(put_pair_other away).symm.trans (clash.trans here.2)⟩
    intro q r left right same
    rcases (occupy_live_iff bound).mp left with rfl | old
    · rcases (occupy_live_iff bound).mp right with rfl | old'
      · rfl
      · exact absurd same.symm (alone r old')
    · rcases (occupy_live_iff bound).mp right with rfl | old'
      · exact absurd same (alone q old)
      · have away : q ≠ p := fun same => vacant (same ▸ old)
        have away' : r ≠ p := fun same => vacant (same ▸ old')
        rw [put_pair_other away,put_pair_other away'] at same
        exact distinct q r old old' same

theorem set_distinct_iff {hl : Khlist υ} (positive : 0 < hl.size) (distinct : hl.Distinct)
    (fixed : Unexpanded hl (.set str ud mallocs)) :
    StaysDistinct hl (.set str ud mallocs) ↔ SetsReachable hl (.set str ud mallocs) := by
  obtain ⟨full,same,wraps⟩ := set_place positive str ud mallocs
  have spec := place_spec positive (hashesOf str) ud full
  rw [← same] at spec
  simp only [StaysDistinct,SetsReachable,Unexpanded,After,apply] at fixed ⊢
  generalize khlistSet hl str ud mallocs = result at spec fixed ⊢
  cases spec with
  | present stores path =>
    constructor
    · intro _ q also
      exact distinct.only stores also ▸ path
    · intro _ next ran
      cases Option.some.inj ran
      exact distinct
  | placed bound vacant path cuts =>
    constructor
    · intro stays q stores
      exact absurd stores ((occupy_distinct_iff distinct bound vacant).mp (stays _ rfl) q)
    · intro reach next ran
      cases Option.some.inj ran
      refine (occupy_distinct_iff distinct bound vacant).mpr ?_
      intro q stores
      exact cuts q stores (reach q stores)
  | full filled full_result =>
    constructor
    · intro _ q stores
      exact absurd stores.2 (filled q stores.1.lt).2
    · intro _ next ran
      obtain ⟨⟨ret,after⟩,returned,rfl⟩ := Option.map_eq_some_iff.mp ran
      rcases wraps with gave_up | grew
      · cases returned.symm.trans (full_result.trans gave_up)
        exact distinct
      · have size := fixed _ ran
        have doubled := grew ret after (full_result.symm.trans returned)
        dsimp only at size
        omega

theorem del_distinct {hl : Khlist υ} (positive : 0 < hl.size) (distinct : hl.Distinct) (str : Key) :
    StaysDistinct hl (.del str) := by
  intro next ran
  obtain ⟨result,deleted,spec⟩ := del_spec positive str
  rw [apply,deleted] at ran
  cases Option.some.inj ran
  cases spec with
  | found stores path => exact clear_distinct distinct stores.1.lt
  | empty bound vacant => exact clear_distinct distinct bound
  | full => exact distinct

theorem get_distinct {hl : Khlist υ} (distinct : hl.Distinct) (str : Key) : StaysDistinct hl (.get str) := by
  intro next ran
  obtain ⟨_,_,rfl⟩ := Option.map_eq_some_iff.mp ran
  exact distinct

structure Single (hl : Khlist υ) : Prop where
  positive : 0 < hl.size
  distinct : hl.Distinct

theorem stays_distinct_iff_reachable {sz : UInt32} {header block : Bool} {hl : Khlist υ} {ops : List (Op υ)}
    (made : khlistCreate sz header block = some hl) (nonzero : sz ≠ 0) (fixed : Along apply Unexpanded hl ops) :
    Along apply StaysDistinct hl ops ↔ Along apply SetsReachable hl ops := by
  have empty := (create_spec made).2
  have begin : Single hl :=
    ⟨create_positive made nonzero,fun p _ occupied _ _ => absurd occupied (empty p)⟩
  refine along_iff ?_ ?_ begin fixed
  · rintro hl op ⟨positive,distinct⟩ same
    cases op with
    | set str ud mallocs => exact set_distinct_iff positive distinct same
    | get str => exact ⟨fun _ => trivial,fun _ => get_distinct distinct str⟩
    | del str => exact ⟨fun _ => trivial,fun _ => del_distinct positive distinct str⟩
  · rintro hl op next ⟨positive,_⟩ same stays ran
    exact ⟨by rw [same next ran]; exact positive,stays next ran⟩

def reuseOps : List (Op Nat) := [.set keyA (some 1) [],.set keyC (some 2) [],.del keyA,.set keyA (some 3) [],.get keyC]

theorem reuse_stays_distinct : khlistCreate 2 true true = some pairTable ∧
    Along apply StaysDistinct pairTable reuseOps ∧ ∃ last, exec apply pairTable reuseOps = some last := by
  have made : khlistCreate 2 true true = some pairTable := rfl
  have fixed : Along apply Unexpanded pairTable reuseOps := by decide +kernel
  have reach : Along apply SetsReachable pairTable reuseOps := by decide +kernel
  have returns : (exec apply pairTable reuseOps).isSome = true := by
    simp only [reuseOps,exec,apply,khlistSet,khlistDel,khlistGet,a_hashes,c_hashes]
    decide
  exact ⟨made,(stays_distinct_iff_reachable made (by decide) fixed).mpr reach,Option.isSome_iff_exists.mp returns⟩

-- With `a` gone, setting `b` again stops at slot 1 and leaves its old copy in slot 0.
def resetOps : List (Op Nat) := [.set keyA (some 1) [],.set keyB (some 2) [],.del keyA,.set keyB (some 3) []]
def duplicateTable : Khlist Nat :=
  ⟨2,[⟨0xccb33eff,0xa2f56b8c,1,some 2⟩,⟨0xccb33eff,0xa2f56b8c,1,some 3⟩],rfl,pair_word⟩

theorem reset_duplicates : khlistCreate 2 true true = some pairTable ∧
    Set.InjOn pairOf (({keyA,keyB} : Finset Key) : Set Key) ∧ Along apply Unexpanded pairTable resetOps ∧
    exec apply pairTable (resetOps.take 2) = some displacedTable ∧ displacedTable.Stores (hashesOf keyA) 1 ∧
    exec apply pairTable resetOps = some duplicateTable ∧ ¬ duplicateTable.Distinct := by
  have stored : displacedTable.Stores (hashesOf keyA) 1 := by
    rw [a_hashes]
    decide
  have displaced : exec apply pairTable (resetOps.take 2) = some displacedTable := by
    simp only [resetOps,List.take,exec,apply,khlistSet,a_hashes,b_hashes]
    decide
  have duplicated : exec apply pairTable resetOps = some duplicateTable := by
    simp only [resetOps,exec,apply,khlistSet,khlistDel,a_hashes,b_hashes]
    decide
  exact ⟨rfl,pair_separated,by decide +kernel,displaced,stored,duplicated,by decide⟩

end Duplicates
end EventLib.HmapDelete
