import EventLib.KhlistDictionary

namespace EventLib.HmapOrder
open LinearProbe Hmap Khlist HmapDictionary LabelledRuns

variable {υ : Type}

structure Insertion (υ : Type) where
  str : Key
  ud : Option υ
  mallocs : List (Nat → Slot υ)

def Insertion.item (i : Insertion υ) : Key × Option υ := (i.str,i.ud)
def Insertion.call (i : Insertion υ) : Call υ := .set i.str i.ud i.mallocs

def occupied (hl : Khlist υ) : Set Nat := {p | hl.Live p}

-- A probe sees nothing of a string but its home and its pair.
theorem get_alike {hl : Khlist υ} (start : home hl.size (hashesOf str) = home hl.size (hashesOf other))
    (pair : pairOf str = pairOf other) : khlistGet hl str = khlistGet hl other := by
  have pair : (hashesOf str).pair = (hashesOf other).pair := pair
  simp only [khlistGet,probe,start,pair]

theorem occupy_settles {hl : Khlist υ} (bound : p < hl.size) (vacant : ¬ hl.Live p) (path : hl.OnPath h p) :
    occupied (hl.put p (occupy h ud)) = settle hl.size (occupied hl) (home hl.size h) := by
  have free : FirstFree hl.size (occupied hl) (home hl.size h) p := ⟨vacant,path⟩
  ext q
  constructor
  · intro after
    rcases (occupy_live_iff bound).mp after with rfl | before
    · exact Or.inr free
    · exact Or.inl before
  · rintro (before | also)
    · exact (occupy_live_iff bound).mpr (Or.inr before)
    · exact (occupy_live_iff bound).mpr (Or.inl (free.unique also))

theorem fresh_set {keys : Finset Key} {s : Session υ} {i : Insertion υ} (separated : Set.InjOn pairOf keys)
    (spacious : Spacious keys s) (member : i.str ∈ keys) (fresh : s.firsts i.str = none) :
    ∃ p, step s i.call = some ⟨s.table.put p (occupy (hashesOf i.str) i.ud),record s i.str i.ud p⟩ ∧
      p < s.table.size ∧ ¬ s.table.Live p ∧ s.table.OnPath (hashesOf i.str) p := by
  obtain ⟨filed,room⟩ := spacious
  obtain ⟨full,same,_⟩ := set_place filed.positive i.str i.ud i.mallocs
  have spec := place_spec filed.positive (hashesOf i.str) i.ud full
  rw [← same] at spec
  simp only [Insertion.call,step]
  generalize khlistSet s.table i.str i.ud i.mallocs = result at spec ⊢
  cases spec with
  | present stores path => exact absurd stores (filed.absent separated member fresh _)
  | placed bound vacant path cuts => exact ⟨_,rfl,bound,vacant,path⟩
  | full filled _ =>
    obtain ⟨p,bound,vacant⟩ := room_left filed member fresh room
    exact absurd (filled p bound).1 vacant

structure Inserted (keys : Finset Key) (s : Session υ) (entries : List (Insertion υ)) (last : Session υ) : Prop where
  spacious : Spacious keys last
  size : last.table.size = s.table.size
  layout : occupied last.table =
    (entries.map fun i => home s.table.size (hashesOf i.str)).foldl (settle s.table.size) (occupied s.table)
  taken : ∀ i ∈ entries, ∃ p, last.firsts i.str = some (p,i.ud)
  others : ∀ str, (∀ i ∈ entries, str ≠ i.str) → last.firsts str = s.firsts str

-- Induction on the insertions: each one settles a slot and files its key, and
-- the keys still to come stay fresh.
theorem inserts_run {keys : Finset Key} {s : Session υ} {entries : List (Insertion υ)} (separated : Set.InjOn pairOf keys)
    (spacious : Spacious keys s) (distinct : (entries.map Insertion.str).Nodup) (uses : ∀ i ∈ entries, i.str ∈ keys)
    (fresh : ∀ i ∈ entries, s.firsts i.str = none) :
    ∃ last, exec step s (entries.map Insertion.call) = some last ∧ Inserted keys s entries last := by
  induction entries generalizing s with
  | nil => exact ⟨s,rfl,spacious,rfl,rfl,fun i member => absurd member List.not_mem_nil,fun str _ => rfl⟩
  | cons i rest ih =>
    rw [List.map_cons,List.nodup_cons] at distinct
    rw [List.forall_mem_cons] at uses fresh
    obtain ⟨p,one,bound,vacant,path⟩ := fresh_set separated spacious uses.1 fresh.1
    have filed : Filed ↑keys ⟨s.table.put p (occupy (hashesOf i.str) i.ud),record s i.str i.ud p⟩ :=
      spacious.filed.placed uses.1 fresh.1 bound vacant path
    have apart : ∀ j ∈ rest, j.str ≠ i.str := fun j member same =>
      distinct.1 (same ▸ List.mem_map_of_mem member)
    have later : ∀ j ∈ rest, record s i.str i.ud p j.str = none := by
      intro j member
      rw [record_other (apart j member)]
      exact fresh.2 j member
    obtain ⟨last,ran,after⟩ := ih ⟨filed,spacious.room⟩ distinct.2 uses.2 later
    refine ⟨last,exec_cons.mpr ⟨_,one,ran⟩,after.spacious,after.size,?_,?_,?_⟩
    · rw [after.layout,List.map_cons,List.foldl_cons,← occupy_settles bound vacant path]
      rfl
    · rw [List.forall_mem_cons]
      refine ⟨⟨p,?_⟩,after.taken⟩
      rw [after.others i.str fun j member => (apart j member).symm]
      exact record_here (position_word bound)
    · intro str away
      rw [List.forall_mem_cons] at away
      rw [after.others str away.2]
      exact record_other away.1

def keysOf (entries : List (Insertion υ)) : Finset Key := (entries.map Insertion.str).toFinset

theorem keys_separated {entries : List (Insertion υ)} (separated : (entries.map fun i => pairOf i.str).Nodup) :
    Set.InjOn pairOf (keysOf entries) := by
  have mapped : ((entries.map Insertion.str).map pairOf).Nodup := by
    rw [List.map_map]
    exact separated
  intro x left y right same
  exact List.inj_on_of_nodup_map mapped (List.mem_toFinset.mp left) (List.mem_toFinset.mp right) same

theorem table_inserted {sz : UInt32} {header block : Bool} {hl : Khlist υ} {entries : List (Insertion υ)}
    (made : khlistCreate sz header block = some hl) (nonzero : sz ≠ 0) (few : entries.length ≤ sz.toNat)
    (separated : (entries.map fun i => pairOf i.str).Nodup) :
    ∃ last, exec step (start hl) (entries.map Insertion.call) = some last ∧
      Inserted (keysOf entries) (start hl) entries last := by
  have distinct : (entries.map Insertion.str).Nodup := by
    refine List.Nodup.of_map pairOf ?_
    rw [List.map_map]
    exact separated
  have room : (keysOf entries).card ≤ (start hl).table.size := by
    rw [keysOf,List.toFinset_card_of_nodup distinct,List.length_map,start,(create_spec made).1]
    exact few
  refine inserts_run (keys_separated separated) ⟨start_filed _ made nonzero,room⟩ distinct ?_ fun i _ => rfl
  intro i member
  exact List.mem_toFinset.mpr (List.mem_map_of_mem member)

-- A string that shares a pair with an inserted key shares its home as well.
def HomesAgree (size : Nat) (entries : List (Insertion υ)) (str : Key) : Prop :=
  ∀ i ∈ entries, pairOf str = pairOf i.str → home size (hashesOf str) = home size (hashesOf i.str)

section Lookup
variable {hl : Khlist υ} {entries : List (Insertion υ)} {last : Session υ}

theorem Inserted.finds (inserted : Inserted (keysOf entries) (start hl) entries last)
    (separated : (entries.map fun i => pairOf i.str).Nodup) (member : i ∈ entries) (pair : pairOf str = pairOf i.str)
    (start : home hl.size (hashesOf str) = home hl.size (hashesOf i.str)) :
    (khlistGet last.table str).map Prod.snd = some (some i.ud) := by
  obtain ⟨p,taken⟩ := inserted.taken i member
  have size : last.table.size = hl.size := inserted.size
  rw [← size] at start
  rw [get_alike start pair,inserted.spacious.filed.get (keys_separated separated) taken]
  rfl

theorem Inserted.misses (inserted : Inserted (keysOf entries) (start hl) entries last)
    (strange : ∀ i ∈ entries, pairOf str ≠ pairOf i.str) : (khlistGet last.table str).map Prod.snd = some none := by
  have filed := inserted.spacious.filed
  rw [get_missed filed.positive]
  · rfl
  · intro q stores
    obtain ⟨key,ud,taken⟩ := filed.owned q stores.1
    obtain ⟨i,member,rfl⟩ := List.mem_map.mp (List.mem_toFinset.mp (filed.known key q ud taken))
    have same : pairOf str = pairOf i.str := stores.2.symm.trans (filed.filed _ _ _ taken).1.2
    exact absurd same (strange i member)

end Lookup

theorem keyed_perm {entries reordered : List (Insertion υ)} (f : Key → β)
    (same : (entries.map Insertion.item).Perm (reordered.map Insertion.item)) :
    (entries.map fun i => f i.str).Perm (reordered.map fun i => f i.str) := by
  have mapped := same.map fun item => f item.1
  rw [List.map_map,List.map_map] at mapped
  exact mapped

theorem lookups_agree {hl : Khlist υ} {entries reordered : List (Insertion υ)} {last other : Session υ}
    (left : Inserted (keysOf entries) (start hl) entries last)
    (right : Inserted (keysOf reordered) (start hl) reordered other)
    (separated : (entries.map fun i => pairOf i.str).Nodup)
    (same : (entries.map Insertion.item).Perm (reordered.map Insertion.item)) (agree : HomesAgree hl.size entries str) :
    (khlistGet last.table str).map Prod.snd = (khlistGet other.table str).map Prod.snd := by
  have pairs := keyed_perm pairOf same
  by_cases known : ∃ i ∈ entries, pairOf str = pairOf i.str
  · obtain ⟨i,member,pair⟩ := known
    have moved : i.item ∈ reordered.map Insertion.item := same.mem_iff.mp (List.mem_map_of_mem member)
    obtain ⟨j,member',item⟩ := List.mem_map.mp moved
    have key : j.str = i.str := congrArg Prod.fst item
    have data : j.ud = i.ud := congrArg Prod.snd item
    have start := agree i member pair
    rw [left.finds separated member pair start,← data]
    rw [← key] at pair start
    rw [right.finds (pairs.nodup_iff.mp separated) member' pair start]
  · have strange : ∀ i ∈ entries, pairOf str ≠ pairOf i.str := fun i member pair => known ⟨i,member,pair⟩
    have strange' : ∀ i ∈ reordered, pairOf str ≠ pairOf i.str := by
      intro i member pair
      obtain ⟨j,member',also⟩ := List.mem_map.mp (pairs.mem_iff.mpr (List.mem_map_of_mem member))
      exact strange j member' (pair.trans also.symm)
    rw [left.misses strange,right.misses strange']

theorem layout_ignores_order {sz : UInt32} {header block : Bool} {hl : Khlist υ} {entries reordered : List (Insertion υ)}
    (made : khlistCreate sz header block = some hl) (nonzero : sz ≠ 0) (few : entries.length ≤ sz.toNat)
    (separated : (entries.map fun i => pairOf i.str).Nodup)
    (same : (entries.map Insertion.item).Perm (reordered.map Insertion.item)) :
    ∃ last other, exec step (start hl) (entries.map Insertion.call) = some last ∧
      exec step (start hl) (reordered.map Insertion.call) = some other ∧
      last.table.size = sz.toNat ∧ other.table.size = sz.toNat ∧ occupied last.table = occupied other.table ∧
      ∀ str, HomesAgree sz.toNat entries str →
        (khlistGet last.table str).map Prod.snd = (khlistGet other.table str).map Prod.snd := by
  have size := (create_spec made).1
  have lengths : entries.length = reordered.length := by simpa only [List.length_map] using same.length_eq
  have separated' := (keyed_perm pairOf same).nodup_iff.mp separated
  obtain ⟨last,ran,inserted⟩ := table_inserted made nonzero few separated
  obtain ⟨other,ran',inserted'⟩ := table_inserted made nonzero (lengths ▸ few) separated'
  refine ⟨last,other,ran,ran',inserted.size.trans size,inserted'.size.trans size,?_,?_⟩
  · rw [inserted.layout,inserted'.layout]
    refine settle_perm (keyed_perm (fun str => home hl.size (hashesOf str)) same) ?_ _
    intro a member
    obtain ⟨i,_,rfl⟩ := List.mem_map.mp member
    exact home_lt (create_positive made nonzero) _
  · intro str agree
    rw [← size] at agree
    exact lookups_agree inserted inserted' separated same agree

def pairEntries : List (Insertion Nat) := [⟨keyA,some 1,[]⟩,⟨keyB,some 2,[]⟩]

theorem pair_layout_either_order : ∃ last other, exec step (start pairTable) (pairEntries.map Insertion.call) = some last ∧
    exec step (start pairTable) (pairEntries.reverse.map Insertion.call) = some other ∧
    occupied last.table = occupied other.table ∧
    (khlistGet last.table keyB).map Prod.snd = (khlistGet other.table keyB).map Prod.snd := by
  have made : khlistCreate 2 true true = some pairTable := rfl
  have separated : (pairEntries.map fun i => pairOf i.str).Nodup := by decide +kernel
  have same : (pairEntries.map Insertion.item).Perm (pairEntries.reverse.map Insertion.item) := by decide
  have agree : HomesAgree 2 pairEntries keyB := by
    intro i member pair
    have key : keyB = i.str := keys_separated separated (by decide) (List.mem_toFinset.mpr (List.mem_map_of_mem member)) pair
    rw [key]
  obtain ⟨last,other,ran,ran',_,_,layout,finds⟩ := layout_ignores_order made (by decide) (by decide) separated same
  exact ⟨last,other,ran,ran',layout,finds keyB agree⟩

-- Two strings with one (HASH_A, HASH_B) pair: "H.%G,2)C5(%" has home slot 2 of a
-- table of three, ".@E Z^,Q80," has home slot 0. `b` has home slot 2 as well.
def storedKey : Key := [72,46,37,71,44,50,41,67,53,40,37]
def twinKey : Key := [46,64,69,32,90,94,44,81,56,48,44]

theorem stored_hashes : hashesOf storedKey = ⟨2015591663,0x5875bbcc,0x570658ed⟩ := by decide +kernel

theorem twin_hashes : hashesOf twinKey = ⟨116294580,0x5875bbcc,0x570658ed⟩ := by decide +kernel

def tripleTable : Khlist Nat := ⟨3,[cleared,cleared,cleared],rfl,by decide⟩
def storedSlot : Slot Nat := ⟨0x5875bbcc,0x570658ed,1,some 1⟩
def rivalSlot : Slot Nat := ⟨0xccb33eff,0xa2f56b8c,1,some 2⟩
def rivalEntries : List (Insertion Nat) := [⟨storedKey,some 1,[]⟩,⟨keyB,some 2,[]⟩]
def rivalTable (first third : Slot Nat) : Khlist Nat := ⟨3,[first,cleared,third],rfl,by decide⟩

theorem stored_first : (exec step (start tripleTable) (rivalEntries.map Insertion.call)).map Session.table =
    some (rivalTable rivalSlot storedSlot) := by
  simp only [rivalEntries,List.map,Insertion.call,exec,step,khlistSet,stored_hashes,b_hashes]
  decide

theorem stored_last : (exec step (start tripleTable) (rivalEntries.reverse.map Insertion.call)).map Session.table =
    some (rivalTable storedSlot rivalSlot) := by
  simp only [rivalEntries,List.reverse_cons,List.reverse_nil,List.nil_append,List.cons_append,List.map,Insertion.call,
    exec,step,khlistSet,stored_hashes,b_hashes]
  decide

theorem twin_lookup_follows_order : khlistCreate 3 true true = some tripleTable ∧ rivalEntries.length ≤ 3 ∧
    (rivalEntries.map fun i => pairOf i.str).Nodup ∧
    ∃ last other, exec step (start tripleTable) (rivalEntries.map Insertion.call) = some last ∧
      exec step (start tripleTable) (rivalEntries.reverse.map Insertion.call) = some other ∧
      khlistGet last.table twinKey = some (minusOne,none) ∧
      khlistGet other.table twinKey = some (0,some (some 1)) := by
  obtain ⟨last,ran,table⟩ := Option.map_eq_some_iff.mp stored_first
  obtain ⟨other,ran',table'⟩ := Option.map_eq_some_iff.mp stored_last
  refine ⟨rfl,by decide,?_,last,other,ran,ran',?_,?_⟩
  · simp only [rivalEntries,List.map,pairOf,stored_hashes,b_hashes]
    decide
  · rw [table,khlistGet,twin_hashes]
    decide
  · rw [table',khlistGet,twin_hashes]
    decide

end EventLib.HmapOrder
