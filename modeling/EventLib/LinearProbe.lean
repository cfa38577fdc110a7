import Mathlib.Data.Nat.ModEq
import Mathlib.Data.Nat.Find
import Mathlib.Data.Set.Basic

namespace LinearProbe

inductive Outcome where
  | found (pos : Nat)
  | empty (pos : Nat)
  | wrapped
deriving DecidableEq

-- A cyclic scan of `n` slots from `start`: it ends at the first slot that is
-- not live or is hit, or when it is back where it began. Out of fuel is `none`.
def scan (n : Nat) (live hit : Nat → Prop) [DecidablePred live] [DecidablePred hit] (start : Nat) :
    Nat → Nat → Option Outcome
  | 0,_ => none
  | fuel+1,pos =>
    if live pos then
      if hit pos then some (.found pos)
      else if (pos+1)%n = start then some .wrapped
      else scan n live hit start fuel ((pos+1)%n)
    else some (.empty pos)

def nth (n start i : Nat) : Nat := (start+i)%n

theorem nth_lt (inside : start < n) : nth n start i < n := Nat.mod_lt _ (by omega)

theorem nth_zero (inside : start < n) : nth n start 0 = start := Nat.mod_eq_of_lt inside

theorem nth_full (inside : start < n) : nth n start n = start := by
  rw [nth,Nat.add_mod_right]
  exact Nat.mod_eq_of_lt inside

theorem nth_succ : (nth n start i+1)%n = nth n start (i+1) := by
  rw [nth,nth,Nat.mod_add_mod,Nat.add_assoc]

theorem nth_nth : nth n (nth n start i) k = nth n start (i+k) := by
  rw [nth,nth,nth,Nat.mod_add_mod,Nat.add_assoc]

theorem nth_ahead (bound : start+i < n) : nth n start i = start+i := Nat.mod_eq_of_lt bound

theorem nth_around (past : n ≤ start+i) (bound : start+i < n+n) : nth n start i = start+i-n := by
  rw [nth,Nat.mod_eq_sub_mod past]
  exact Nat.mod_eq_of_lt (by omega)

theorem nth_inj (left : i < n) (right : j < n) (same : nth n start i = nth n start j) : i = j :=
  Nat.ModEq.eq_of_lt_of_lt (Nat.ModEq.add_left_cancel' start same) left right

theorem nth_cover (inside : start < n) (bound : p < n) : ∃ i < n, nth n start i = p := by
  by_cases ahead : start ≤ p
  · refine ⟨p-start,by omega,?_⟩
    rw [nth_ahead (by omega)]
    omega
  · refine ⟨p+n-start,by omega,?_⟩
    rw [nth_around (by omega) (by omega)]
    omega

section Reach
variable {n start : Nat} {live hit : Nat → Prop}

def Clear (n : Nat) (live hit : Nat → Prop) (start i : Nat) : Prop :=
  ∀ j < i, live (nth n start j) ∧ ¬ hit (nth n start j)

-- The meaning of a scan, by cyclic distance from its start.
inductive Reaches (n : Nat) (live hit : Nat → Prop) (start : Nat) : Outcome → Prop where
  | found : i < n → Clear n live hit start i → live (nth n start i) → hit (nth n start i) →
      Reaches n live hit start (.found (nth n start i))
  | empty : i < n → Clear n live hit start i → ¬ live (nth n start i) →
      Reaches n live hit start (.empty (nth n start i))
  | wrapped : Clear n live hit start n → Reaches n live hit start .wrapped

theorem Clear.succ (clear : Clear n live hit start i) (occupied : live (nth n start i))
    (other : ¬ hit (nth n start i)) : Clear n live hit start (i+1) := by
  intro j below
  by_cases last : j = i
  · rw [last]
    exact ⟨occupied,other⟩
  · exact clear j (by omega)

theorem Clear.le_stop (clear : Clear n live hit start i) (stops : live (nth n start j) → hit (nth n start j)) : i ≤ j := by
  by_contra beyond
  have inside := clear j (by omega)
  exact inside.2 (stops inside.1)

theorem Reaches.unique (left : Reaches n live hit start first) (right : Reaches n live hit start second) :
    first = second := by
  cases left with
  | found bound clear occupied hits =>
    cases right with
    | found bound' clear' occupied' hits' =>
      rw [Nat.le_antisymm (clear.le_stop fun _ => hits') (clear'.le_stop fun _ => hits)]
    | empty bound' clear' vacant =>
      have same := Nat.le_antisymm (clear.le_stop fun live => absurd live vacant) (clear'.le_stop fun _ => hits)
      exact absurd (same ▸ occupied) vacant
    | wrapped clear' => exact absurd (clear'.le_stop fun _ => hits) (by omega)
  | empty bound clear vacant =>
    cases right with
    | found bound' clear' occupied' hits' =>
      have same := Nat.le_antisymm (clear.le_stop fun _ => hits') (clear'.le_stop fun live => absurd live vacant)
      exact absurd (same ▸ occupied') vacant
    | empty bound' clear' vacant' =>
      rw [Nat.le_antisymm (clear.le_stop fun live => absurd live vacant')
        (clear'.le_stop fun live => absurd live vacant)]
    | wrapped clear' => exact absurd (clear'.le_stop fun live => absurd live vacant) (by omega)
  | wrapped clear =>
    cases right with
    | found bound' clear' occupied' hits' => exact absurd (clear.le_stop fun _ => hits') (by omega)
    | empty bound' clear' vacant => exact absurd (clear.le_stop fun live => absurd live vacant) (by omega)
    | wrapped clear' => rfl

-- Induction on the fuel: `i` slots are behind the scan, `fuel` are ahead.
theorem scan_reaches [DecidablePred live] [DecidablePred hit] (inside : start < n) (split : i+fuel = n) (more : 0 < fuel)
    (clear : Clear n live hit start i) :
    ∃ outcome, scan n live hit start fuel (nth n start i) = some outcome ∧ Reaches n live hit start outcome := by
  induction fuel generalizing i with
  | zero => omega
  | succ fuel ih =>
    rw [scan]
    by_cases occupied : live (nth n start i)
    · rw [if_pos occupied]
      by_cases hits : hit (nth n start i)
      · rw [if_pos hits]
        exact ⟨_,rfl,.found (by omega) clear occupied hits⟩
      · rw [if_neg hits,nth_succ]
        have longer := clear.succ occupied hits
        by_cases back : nth n start (i+1) = start
        · rw [if_pos back]
          have whole : i+1 = n := by
            by_contra short
            have zero := nth_inj (by omega) (by omega) (back.trans (nth_zero inside).symm)
            omega
          exact ⟨_,rfl,.wrapped (whole ▸ longer)⟩
        · rw [if_neg back]
          have short : i+1 ≠ n := by
            intro whole
            rw [whole] at back
            exact back (nth_full inside)
          exact ih (by omega) (by omega) longer
    · rw [if_neg occupied]
      exact ⟨_,rfl,.empty (by omega) clear occupied⟩

theorem scan_iff [DecidablePred live] [DecidablePred hit] (inside : start < n) :
    scan n live hit start n start = some outcome ↔ Reaches n live hit start outcome := by
  have clear : Clear n live hit start 0 := fun j below => absurd below (by omega)
  obtain ⟨result,scanned,reached⟩ := scan_reaches inside (Nat.zero_add n) (by omega) clear
  rw [nth_zero inside] at scanned
  constructor
  · intro ran
    rw [← Option.some.inj (scanned.symm.trans ran)]
    exact reached
  · intro other
    rw [scanned,reached.unique other]

-- `p` can be reached from `start` over live slots only; `p` itself may be any.
def Path (n : Nat) (live : Nat → Prop) (start p : Nat) : Prop :=
  ∃ i < n, nth n start i = p ∧ ∀ j < i, live (nth n start j)

instance [DecidablePred live] : Decidable (Path n live start p) :=
  inferInstanceAs (Decidable (∃ i < n, nth n start i = p ∧ ∀ j < i, live (nth n start j)))

theorem Path.mono {live' : Nat → Prop} (path : Path n live start p) (grows : ∀ q, live q → live' q) :
    Path n live' start p := by
  obtain ⟨i,bound,here,before⟩ := path
  exact ⟨i,bound,here,fun j below => grows _ (before j below)⟩

theorem Reaches.full (reached : Reaches n live hit start .wrapped) (inside : start < n) (bound : p < n) :
    live p ∧ ¬ hit p := by
  cases reached with
  | wrapped clear =>
    obtain ⟨i,bound,here⟩ := nth_cover inside bound
    rw [← here]
    exact clear i bound

theorem reaches_found (path : Path n live start p) (occupied : live p) (hits : hit p)
    (only : ∀ q, live q → hit q → q = p) : Reaches n live hit start (.found p) := by
  obtain ⟨i,bound,rfl,before⟩ := path
  refine .found bound ?_ occupied hits
  intro j below
  refine ⟨before j below,?_⟩
  intro also
  exact absurd (nth_inj (by omega) bound (only _ (before j below) also)) (by omega)

theorem Reaches.empty_cuts (reached : Reaches n live hit start (.empty p))
    (occupied : live q) (hits : hit q) : ¬ Path n live start q := by
  rintro ⟨i,bound,rfl,before⟩
  cases reached with
  | @empty k bound' clear vacant =>
    have later := clear.le_stop fun _ => hits
    by_cases here : k = i
    · exact vacant (here ▸ occupied)
    · exact vacant (before k (by omega))

-- `p` comes strictly before `q` on the way from `start`.
def Crosses (n start p q : Nat) : Prop := ∃ i j, i < j ∧ j < n ∧ nth n start i = p ∧ nth n start j = q

instance {p q : Nat} : Decidable (Crosses n start p q) :=
  decidable_of_iff (∃ j < n, ∃ i < j, nth n start i = p ∧ nth n start j = q)
    ⟨fun ⟨j,inside,i,less,both⟩ => ⟨i,j,less,inside,both⟩,fun ⟨i,j,less,inside,both⟩ => ⟨j,inside,i,less,both⟩⟩

theorem path_without_iff {p q : Nat} : Path n (fun r => r ≠ p ∧ live r) start q ↔
    Path n live start q ∧ ¬ Crosses n start p q := by
  constructor
  · intro path
    refine ⟨path.mono fun r both => both.2,?_⟩
    obtain ⟨k,bound,here,before⟩ := path
    rintro ⟨i,j,less,inside,at_p,at_q⟩
    have same := nth_inj inside bound (at_q.trans here.symm)
    exact (before i (by omega)).1 at_p
  · rintro ⟨⟨k,bound,here,before⟩,apart⟩
    refine ⟨k,bound,here,?_⟩
    intro j below
    exact ⟨fun at_p => apart ⟨j,k,below,bound,at_p,here⟩,before j below⟩

end Reach

section Settle
variable {n a b e p : Nat} {live : Set Nat}

-- Where an item with home `start` goes.
def FirstFree (n : Nat) (live : Set Nat) (start e : Nat) : Prop := e ∉ live ∧ Path n (· ∈ live) start e

-- The occupied slots once such an item is in; a full table stays as it is.
def settle (n : Nat) (live : Set Nat) (start : Nat) : Set Nat := {p | p ∈ live ∨ FirstFree n live start p}

theorem settle_grows (free : p ∉ settle n live a) : p ∉ live := fun occupied => free (Or.inl occupied)

theorem FirstFree.unique (left : FirstFree n live a e) (right : FirstFree n live a p) : p = e := by
  obtain ⟨vacant,i,_,rfl,before⟩ := left
  obtain ⟨vacant',j,_,rfl,before'⟩ := right
  rcases Nat.lt_trichotomy i j with less | same | more
  · exact absurd (before' i less) vacant
  · rw [same]
  · exact absurd (before j more) vacant'

-- A whole turn over live slots would have met the free slot already.
theorem path_of_reach (inside : a < n) (vacant : p ∉ live) (here : nth n a i = p)
    (before : ∀ j < i, nth n a j ∈ live) : Path n (· ∈ live) a p := by
  refine ⟨i,?_,here,before⟩
  by_contra turn
  have again : nth n a (i-n) = p := by
    rw [← here,nth,nth,← Nat.add_mod_right (a+(i-n)) n,Nat.add_assoc,Nat.sub_add_cancel (by omega)]
  exact vacant (again ▸ before (i-n) (by omega))

-- Ways over live slots that meet at `e` go on together.
theorem path_through (inside : a < n) (vacant : p ∉ live) (first : Path n (· ∈ live) a e) (here : nth n b m = e)
    (there : nth n b i = p) (beyond : m ≤ i) (before : ∀ j < i, nth n b j ∈ live) : Path n (· ∈ live) a p := by
  obtain ⟨k,_,rfl,behind⟩ := first
  have shift : ∀ j, nth n a (k+j) = nth n b (m+j) := by
    intro j
    rw [← nth_nth,← nth_nth,here]
  have last : nth n a (k+(i-m)) = p := by rw [shift,Nat.add_sub_cancel' beyond,there]
  refine path_of_reach inside vacant last ?_
  intro j below
  by_cases near : j < k
  · exact behind j near
  · rw [← Nat.add_sub_cancel' (Nat.le_of_not_lt near),shift]
    exact before _ (by omega)

-- Either the item settled first does not stand in the way of the other, or the
-- two compete for one slot and the loser goes on from there.
theorem settle_free_cases (free : FirstFree n (settle n live a) b p) :
    FirstFree n live b p ∨ ∃ e i m, FirstFree n live a e ∧ FirstFree n live b e ∧ nth n b m = e ∧ nth n b i = p ∧
      m ≤ i ∧ ∀ j < i, nth n b j ∈ settle n live a := by
  classical
  obtain ⟨vacant,i,bound,here,before⟩ := free
  by_cases all : ∀ j < i, nth n b j ∈ live
  · exact Or.inl ⟨settle_grows vacant,i,bound,here,all⟩
  · right
    have blocked : ∃ j, j < i ∧ nth n b j ∉ live := by simpa only [not_forall,exists_prop] using all
    obtain ⟨below,out⟩ := Nat.find_spec blocked
    have first : FirstFree n live a (nth n b (Nat.find blocked)) := (before _ below).resolve_left out
    refine ⟨_,i,Nat.find blocked,first,⟨out,_,by omega,rfl,?_⟩,rfl,here,by omega,before⟩
    intro j less
    by_contra outside
    exact Nat.find_min blocked less ⟨by omega,outside⟩

theorem settle_comm_subset (inside : a < n) : settle n (settle n live a) b ⊆ settle n (settle n live b) a := by
  intro p settled
  by_cases known : p ∈ settle n live b
  · exact Or.inl known
  · refine Or.inr ⟨known,?_⟩
    rcases settled with (occupied | free) | free
    · exact absurd (Or.inl occupied) known
    · exact free.2.mono fun q => Or.inl
    · rcases settle_free_cases free with own | ⟨e,i,m,ours,theirs,here,there,beyond,before⟩
      · exact absurd (Or.inr own) known
      · have same : settle n live a = settle n live b := by
          ext q
          refine or_congr_right ⟨fun also => ?_,fun also => ?_⟩
          · rw [ours.unique also]
            exact theirs
          · rw [theirs.unique also]
            exact ours
        rw [same] at before
        exact path_through inside known (ours.2.mono fun q => Or.inl) here there beyond before

theorem settle_comm (left : a < n) (right : b < n) : settle n (settle n live a) b = settle n (settle n live b) a :=
  Set.Subset.antisymm (settle_comm_subset left) (settle_comm_subset right)

theorem settle_perm {homes homes' : List Nat} (perm : homes.Perm homes') (inside : ∀ a ∈ homes, a < n) (live : Set Nat) :
    homes.foldl (settle n) live = homes'.foldl (settle n) live :=
  perm.foldl_eq' (fun a left b right _ => settle_comm (inside a left) (inside b right)) live

end Settle

end LinearProbe
