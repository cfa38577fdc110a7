import Mathlib.Algebra.Ring.Nat
import Mathlib.Data.Nat.Find

namespace EventLib.FdLimit

-- `cur` is the soft limit in force; `asked` are the values `setrlimit` was called
-- with, `rlim_cur` and `rlim_max` alike.
structure Limits where
  cur : UInt64
  asked : List UInt64
deriving DecidableEq

inductive Progress where
  | running (f : UInt64) (limits : Limits)
  | stopped (f : UInt64) (limits : Limits)
deriving DecidableEq

def Progress.limits : Progress → Limits
  | .running _ limits => limits
  | .stopped _ limits => limits

-- One turn of the loop; `f -= 128` is unsigned.
def limitTurn (oldlimit : UInt64) (success : Bool) : Progress → Progress
  | .running f limits =>
    if oldlimit < f then
      if success then .stopped f ⟨f,limits.asked++[f]⟩ else .running (f-128) {limits with asked:=limits.asked++[f]}
    else .stopped f limits
  | .stopped f limits => .stopped f limits

-- The loop after so many turns. Each turn made one attempt, so `answers` is
-- indexed by the turn.
def limitLoop (maxfile oldlimit : UInt64) (answers : Nat → Bool) : Nat → Progress
  | 0 => .running maxfile ⟨oldlimit,[]⟩
  | n+1 => limitTurn oldlimit (answers n) (limitLoop maxfile oldlimit answers n)

def maxfileOf (max : Int32) : UInt64 := UInt64.ofInt max.toInt

-- `current` is the answer of `getrlimit`. A result of `none` is a call still in
-- its loop after so many turns.
def fdLimit (max : Int32) (current : Option UInt64) (answers : Nat → Bool) (turns : Nat) : Option Int32 :=
  match current with
  | none => some 1024
  | some oldlimit =>
    if oldlimit < maxfileOf max then
      match limitLoop (maxfileOf max) oldlimit answers turns with
      | .running _ _ => none
      | .stopped f _ => some (Int32.ofNat (if f < oldlimit then oldlimit else f).toNat)
    else some (Int32.ofNat (maxfileOf max).toNat)

structure Enforces (max : Int32) (oldlimit : UInt64) (answers : Nat → Bool) : Prop where
  returns : ∃ turns ret, fdLimit max (some oldlimit) answers turns = some ret
  asks : ∀ turns, ∀ value ∈ (limitLoop (maxfileOf max) oldlimit answers turns).limits.asked,
    oldlimit < value ∧ value ≤ maxfileOf max
  inForce : ∀ turns ret, fdLimit max (some oldlimit) answers turns = some ret →
    ret.toInt = (limitLoop (maxfileOf max) oldlimit answers turns).limits.cur.toNat

section Descent
variable {maxfile oldlimit : UInt64} {answers : Nat → Bool} {n k : Nat}

-- The value tried at attempt `i`.
def rung (maxfile : UInt64) (i : Nat) : UInt64 := maxfile-UInt64.ofNat (128*i)

theorem step_word (room : 128*i ≤ maxfile.toNat) : (UInt64.ofNat (128*i)).toNat = 128*i := by
  have bound := maxfile.toNat_lt
  exact UInt64.toNat_ofNat_of_lt' (by rw [UInt64.size]; omega)

theorem rung_exact (room : 128*i ≤ maxfile.toNat) : (rung maxfile i).toNat = maxfile.toNat-128*i := by
  have word := step_word room
  rw [rung,UInt64.toNat_sub_of_le _ _ (UInt64.le_iff_toNat_le.mpr (by omega)),word]

theorem rung_succ : rung maxfile i-128 = rung maxfile (i+1) := by
  rw [rung,rung,Nat.mul_succ,UInt64.ofNat_add]
  grind

theorem rung_above (above : oldlimit.toNat+128*i < maxfile.toNat) : oldlimit < rung maxfile i ∧ rung maxfile i ≤ maxfile := by
  have room : 128*i ≤ maxfile.toNat := by omega
  have height := rung_exact room
  rw [UInt64.lt_iff_toNat_lt,UInt64.le_iff_toNat_le]
  omega

-- Up to its first success and down to the old limit the loop takes one rung a turn.
theorem loop_running (fails : ∀ i < n, answers i = false) (above : ∀ i < n, oldlimit.toNat+128*i < maxfile.toNat) :
    limitLoop maxfile oldlimit answers n = .running (rung maxfile n) ⟨oldlimit,(List.range n).map (rung maxfile)⟩ := by
  induction n with
  | zero =>
    have top : rung maxfile 0 = maxfile := UInt64.sub_zero maxfile
    rw [limitLoop,top]
    rfl
  | succ n ih =>
    have before := ih (fun i less => fails i (by omega)) (fun i less => above i (by omega))
    have higher := (rung_above (above n (by omega))).1
    rw [limitLoop,before,fails n (by omega),limitTurn,if_pos higher,rung_succ,List.range_succ,List.map_append]
    rfl

theorem loop_stays (done : limitLoop maxfile oldlimit answers n = .stopped f limits) (later : n ≤ m) :
    limitLoop maxfile oldlimit answers m = .stopped f limits := by
  induction m, later using Nat.le_induction with
  | base => exact done
  | succ m _ ih =>
    rw [limitLoop,ih]
    rfl

-- The turn that ends the loop: a success, or no rung left above the old limit.
def Ends (maxfile oldlimit : UInt64) (answers : Nat → Bool) (i : Nat) : Prop :=
  answers i = true ∨ maxfile.toNat ≤ oldlimit.toNat+128*i

instance (i : Nat) : Decidable (Ends maxfile oldlimit answers i) := inferInstanceAs (Decidable (_ ∨ _))

structure Descends (maxfile oldlimit : UInt64) (answers : Nat → Bool) (k : Nat) : Prop where
  room : 128*k ≤ maxfile.toNat
  ends : Ends maxfile oldlimit answers k
  first : ∀ i < k, ¬ Ends maxfile oldlimit answers i

theorem first_end (room : 128*n ≤ maxfile.toNat) (ends : Ends maxfile oldlimit answers n) :
    ∃ k, Descends maxfile oldlimit answers k := by
  have found : ∃ i, Ends maxfile oldlimit answers i := ⟨n,ends⟩
  have least := Nat.find_min' found ends
  exact ⟨Nat.find found,by omega,Nat.find_spec found,fun i less => Nat.find_min found less⟩

theorem Descends.above (descends : Descends maxfile oldlimit answers k) (less : i < k) :
    answers i = false ∧ oldlimit.toNat+128*i < maxfile.toNat := by
  have goes := descends.first i less
  rw [Ends,not_or,Bool.not_eq_true] at goes
  exact ⟨goes.1,by omega⟩

theorem Descends.running (descends : Descends maxfile oldlimit answers k) (early : n ≤ k) :
    limitLoop maxfile oldlimit answers n = .running (rung maxfile n) ⟨oldlimit,(List.range n).map (rung maxfile)⟩ :=
  loop_running (fun i less => (descends.above (by omega)).1) (fun i less => (descends.above (by omega)).2)

theorem Descends.within (descends : Descends maxfile oldlimit answers k) (early : n ≤ k) :
    ∀ value ∈ (List.range n).map (rung maxfile), oldlimit < value ∧ value ≤ maxfile := by
  intro value member
  obtain ⟨i,inside,rfl⟩ := List.mem_map.mp member
  exact rung_above (descends.above (Nat.lt_of_lt_of_le (List.mem_range.mp inside) early)).2

-- What the loop leaves: the limit in force is the higher of the last rung and
-- the old limit.
theorem Descends.stopped (descends : Descends maxfile oldlimit answers k) :
    ∃ f limits, limitLoop maxfile oldlimit answers (k+1) = .stopped f limits ∧
      limits.cur = (if f < oldlimit then oldlimit else f) ∧ (oldlimit < maxfile → limits.cur ≤ maxfile) ∧
      ∀ value ∈ limits.asked, oldlimit < value ∧ value ≤ maxfile := by
  have within := descends.within (Nat.le_refl k)
  have room := descends.room
  rw [limitLoop,descends.running (Nat.le_refl k),limitTurn]
  by_cases above : oldlimit.toNat+128*k < maxfile.toNat
  · obtain ⟨higher,most⟩ := rung_above above
    have success : answers k = true := descends.ends.resolve_right (by omega)
    have not_below : ¬ rung maxfile k < oldlimit := UInt64.lt_asymm higher
    rw [if_pos higher,success,if_pos rfl]
    refine ⟨_,_,rfl,(if_neg not_below).symm,fun _ => most,?_⟩
    intro value member
    rcases List.mem_append.mp member with old | last
    · exact within value old
    · rw [List.mem_singleton.mp last]
      exact ⟨higher,most⟩
  · have height := rung_exact room
    have down : ¬ oldlimit < rung maxfile k := by
      rw [UInt64.lt_iff_toNat_lt]
      omega
    rw [if_neg down]
    refine ⟨_,_,rfl,?_,UInt64.le_of_lt,within⟩
    split
    · rfl
    · rename_i level
      rw [UInt64.lt_iff_toNat_lt] at level down
      show oldlimit = rung maxfile k
      exact UInt64.toNat_inj.mp (by omega)

-- Every attempt of the first descent fails and none of its values is at most the
-- old limit: the next one is beyond 2^63.
theorem wraps_above (small : maxfile.toNat < 2^31) (fails : ∀ i ≤ maxfile.toNat/128, answers i = false)
    (high : oldlimit.toNat < maxfile.toNat%128) :
    ∃ value ∈ (limitLoop maxfile oldlimit answers (maxfile.toNat/128+2)).limits.asked, ¬ value ≤ maxfile := by
  let n := maxfile.toNat/128
  have descent : limitLoop maxfile oldlimit answers (n+1) =
      .running (rung maxfile (n+1)) ⟨oldlimit,(List.range (n+1)).map (rung maxfile)⟩ := by
    refine loop_running (fun i less => fails i (by omega)) ?_
    intro i less
    have inside : i ≤ maxfile.toNat/128 := by omega
    omega
  have last : (rung maxfile n).toNat = maxfile.toNat%128 := by
    rw [rung_exact (by omega)]
    omega
  have wrapped : (rung maxfile (n+1)).toNat = 2^64+maxfile.toNat%128-128 := by
    rw [← rung_succ,UInt64.toNat_sub,last]
    simp only [UInt64.toNat_ofNat]
    omega
  have higher : oldlimit < rung maxfile (n+1) := by
    rw [UInt64.lt_iff_toNat_lt]
    omega
  refine ⟨rung maxfile (n+1),?_,?_⟩
  · show rung maxfile (n+1) ∈ (limitTurn oldlimit (answers (n+1)) (limitLoop maxfile oldlimit answers (n+1))).limits.asked
    rw [descent,limitTurn,if_pos higher]
    split <;> exact List.mem_append_right _ (List.mem_singleton_self _)
  · rw [UInt64.le_iff_toNat_le]
    omega

end Descent

section Result
variable {max : Int32} {oldlimit : UInt64} {answers : Nat → Bool}

theorem maxfile_small (nonneg : 0 ≤ max.toInt) : (maxfileOf max).toNat < 2^31 := by
  have bound := max.toInt_lt
  have same : max.toInt%2^64 = max.toInt := by omega
  rw [maxfileOf,UInt64.ofInt,same,UInt64.toNat_ofNat_of_lt' (by rw [UInt64.size]; omega)]
  omega

theorem limit_running (below : oldlimit < maxfileOf max)
    (loop : limitLoop (maxfileOf max) oldlimit answers n = .running f limits) :
    fdLimit max (some oldlimit) answers n = none := by
  simp only [fdLimit,if_pos below,loop]

theorem limit_stopped (below : oldlimit < maxfileOf max)
    (loop : limitLoop (maxfileOf max) oldlimit answers n = .stopped f limits) :
    fdLimit max (some oldlimit) answers n = some (Int32.ofNat (if f < oldlimit then oldlimit else f).toNat) := by
  simp only [fdLimit,if_pos below,loop]

theorem Descends.enforces {k : Nat} (descends : Descends (maxfileOf max) oldlimit answers k) (nonneg : 0 ≤ max.toInt)
    (below : oldlimit < maxfileOf max) : Enforces max oldlimit answers := by
  obtain ⟨f,limits,stopped,cur,most,within⟩ := descends.stopped
  have cases_at : ∀ n, n ≤ k ∧ limitLoop (maxfileOf max) oldlimit answers n =
        .running (rung (maxfileOf max) n) ⟨oldlimit,(List.range n).map (rung (maxfileOf max))⟩ ∨
      limitLoop (maxfileOf max) oldlimit answers n = .stopped f limits := by
    intro n
    by_cases early : n ≤ k
    · exact Or.inl ⟨early,descends.running early⟩
    · exact Or.inr (loop_stays stopped (by omega))
  refine ⟨⟨k+1,_,limit_stopped below stopped⟩,?_,?_⟩
  · intro n value member
    rcases cases_at n with ⟨early,loop⟩ | loop
    · rw [loop] at member
      exact descends.within early value member
    · rw [loop] at member
      exact within value member
  · intro n ret returned
    rcases cases_at n with ⟨early,loop⟩ | loop
    · rw [limit_running below loop] at returned
      cases returned
    · have least := UInt64.le_iff_toNat_le.mp (most below)
      have small := maxfile_small nonneg
      rw [limit_stopped below loop,← cur] at returned
      cases Option.some.inj returned
      rw [loop]
      exact Int32.toInt_ofNat_of_lt (by omega)

theorem limit_enforced_iff (nonneg : 0 ≤ max.toInt) (below : oldlimit < maxfileOf max) : Enforces max oldlimit answers ↔
      (maxfileOf max).toNat%128 ≤ oldlimit.toNat ∨ ∃ i ≤ (maxfileOf max).toNat/128, answers i = true := by
  constructor
  · intro enforces
    by_contra neither
    rw [not_or,not_exists] at neither
    have fails : ∀ i ≤ (maxfileOf max).toNat/128, answers i = false := by
      intro i inside
      exact Bool.eq_false_iff.mpr fun success => neither.2 i ⟨inside,success⟩
    obtain ⟨value,asked,beyond⟩ := wraps_above (maxfile_small nonneg) fails (Nat.lt_of_not_le neither.1)
    exact beyond (enforces.asks _ value asked).2
  · intro ends
    have last : ∃ i ≤ (maxfileOf max).toNat/128, Ends (maxfileOf max) oldlimit answers i := by
      rcases ends with low | ⟨i,inside,success⟩
      · exact ⟨_,Nat.le_refl _,Or.inr (by omega)⟩
      · exact ⟨i,inside,Or.inl success⟩
    obtain ⟨i,inside,ends⟩ := last
    obtain ⟨k,descends⟩ := first_end (by omega) ends
    exact descends.enforces nonneg below

-- 1000 is 7 rungs above 104, which is at most the old limit 200.
theorem refused_limit_enforced : Enforces 1000 200 (fun _ => false) := by
  have below : (200 : UInt64) < maxfileOf 1000 := by decide
  exact (limit_enforced_iff (by decide) below).mpr (Or.inl (by decide))

-- From 100, the only rung above 50, the next one is 2^64-28.
theorem refused_limit_wraps : (50 : UInt64) < maxfileOf 100 ∧
    limitLoop (maxfileOf 100) 50 (fun _ => false) 2 = .running 0xFFFFFFFFFFFFFF64 ⟨50,[100,0xFFFFFFFFFFFFFFE4]⟩ ∧
    fdLimit 100 (some 50) (fun _ => false) 2 = none := by decide

end Result
end EventLib.FdLimit
