import EventLib.ByteBlock

namespace EventLib.Sockaddrs
open ByteBlock

def AF_UNIX : UInt16 := 1
def AF_INET : UInt16 := 2
def AF_INET6 : UInt16 := 10

-- Sizes of the structures on Linux; the union is padded to a multiple of four.
def sizeofSa : Nat := 16
def sizeofUx : Nat := 110
def sizeofV4 : Nat := 16
def sizeofV6 : Nat := 28
def sizeofUnion : Nat := 112
def sizeofPath : UInt64 := 108

-- `family` stands before the union, which begins with a family of its own.
structure Sockaddr where
  family : UInt16
  sa : List UInt8
  whole : sa.length = sizeofUnion
deriving DecidableEq

def zeroed : Sockaddr := ⟨0,List.replicate sizeofUnion 0,List.length_replicate⟩

def Sockaddr.poke (a : Sockaddr) (offset : Nat) (bytes : List UInt8) (fits : offset+bytes.length ≤ sizeofUnion) : Sockaddr :=
  {a with sa:=put a.sa offset bytes,whole:=(put_length (by rw [a.whole]; exact fits)).trans a.whole}

-- A family is stored in the order of the host, little endian; a port is not.
def familyBytes (family : UInt16) : List UInt8 := [family.toUInt8,(family >>> 8).toUInt8]
def htons (port : UInt16) : List UInt8 := [(port >>> 8).toUInt8,port.toUInt8]

theorem family_fits (family : UInt16) : 0+(familyBytes family).length ≤ sizeofUnion := show 0+2 ≤ 112 by decide
theorem port_fits (port : UInt16) : 2+(htons port).length ≤ sizeofUnion := show 2+2 ≤ 112 by decide

theorem copy_fits (bytes : List UInt8) (small : n ≤ sizeofUnion) : 0+(bytes.take n).length ≤ sizeofUnion := by
  have taken := List.length_take_le n bytes
  omega

def Sockaddr.withFamily (a : Sockaddr) (family : UInt16) : Sockaddr :=
  {a with family:=family}.poke 0 (familyBytes family) (family_fits family)

def Sockaddr.withPort (a : Sockaddr) (port : UInt16) : Sockaddr := a.poke 2 (htons port) (port_fits port)

def sockaddrLen (addr : Sockaddr) : Nat :=
  if addr.family = AF_UNIX then sizeofUx
  else if addr.family = AF_INET then sizeofV4
  else if addr.family = AF_INET6 then sizeofV6
  else sizeofSa

abbrev Quad := {bytes : List UInt8 // bytes.length = 4}

-- `addr` is NULL, or a text with what `inet_pton` makes of it.
def sockaddrSetV4 (addr : Option (Option Quad)) (port : UInt16) : Int × Sockaddr :=
  match addr with
  | none => (0,(zeroed.withFamily AF_INET).withPort port)
  | some none => (-1,zeroed)
  | some (some quad) => (0,((zeroed.poke 4 quad.1 (by rw [quad.2]; decide)).withFamily AF_INET).withPort port)

-- The first entry of the list from `getaddrinfo`.
structure Addrinfo where
  family : UInt16
  addr : List UInt8
  six : family = AF_INET6 → sizeofV6 ≤ addr.length
  four : family = AF_INET → sizeofV4 ≤ addr.length

-- `addr` is NULL, or a text with the answer of `getaddrinfo`.
def sockaddrSetV6 (addr : Option (Option Addrinfo)) (port : UInt16) : Int × Sockaddr :=
  match addr with
  | none => (0,(zeroed.withFamily AF_INET6).withPort port)
  | some none => (-1,zeroed)
  | some (some ai) =>
    let sa : Sockaddr := {zeroed with family:=ai.family}
    if ai.family = AF_INET6 then
      (0,(sa.poke 0 (ai.addr.take sizeofV6) (copy_fits _ (by decide))).withPort port)
    else if ai.family = AF_INET then
      (0,(sa.poke 0 (ai.addr.take sizeofV4) (copy_fits _ (by decide))).withPort port)
    else (-1,sa)

-- `sockaddr_set_unix` once the length is known. `len+1` is an unsigned sum.
def fillPath (sa : Sockaddr) (memory : List UInt8) (len : UInt64) : Option (Int × Sockaddr) :=
  if sizeofPath ≤ len+1 then some (-1,sa) else
  (load memory 0 len.toNat).bind fun bytes =>
    if fits : 2+bytes.length ≤ sizeofUnion then some (0,(zeroed.withFamily AF_UNIX).poke 2 bytes fits) else none

-- `path` is the memory the pointer leads to, terminator and more included;
-- reading past it is undefined.
def sockaddrSetUnix (sa : Sockaddr) (path : Option (List UInt8)) (len : UInt64) : Option (Int × Sockaddr) :=
  match path with
  | none => some (-1,sa)
  | some [] => none
  | some (c::more) =>
    if c = 0 then some (-1,sa)
    else if len ≠ 0 then fillPath sa (c::more) len
    else if 0 ∈ more then fillPath sa (c::more) (UInt64.ofNat ((c::more).idxOf 0))
    else none

-- What the kernel keeps of an address given to `bind` with its length.
def bindName (a : Sockaddr) : List UInt8 := a.sa.take (sockaddrLen a)

-- `answer` is the name of the descriptor, or an errno. The length offered is
-- that of the cleared structure, and `family` stays cleared.
def sockaddrSockname (answer : Except Int (List UInt8)) : Int × Sockaddr :=
  match answer with
  | .ok name => (0,zeroed.poke 0 (name.take (sockaddrLen zeroed)) (copy_fits _ (by decide)))
  | .error errno => (errno,zeroed)

inductive Built : Sockaddr → Prop where
  | v4 : sockaddrSetV4 addr port = (0,a) → Built a
  | v6 : sockaddrSetV6 addr port = (0,a) → Built a
  | unix : sockaddrSetUnix old path len = some (0,a) → Built a

def GivesBack (a : Sockaddr) (result : Int × Sockaddr) : Prop :=
  result.1 = 0 ∧ result.2.family = a.family ∧ result.2.sa.take (sockaddrLen a) = a.sa.take (sockaddrLen a)

instance (a : Sockaddr) (result : Int × Sockaddr) : Decidable (GivesBack a result) := inferInstanceAs (Decidable (_ ∧ _))

variable {a : Sockaddr}

theorem v4_family (made : sockaddrSetV4 addr port = (0,a)) : a.family = AF_INET := by
  unfold sockaddrSetV4 at made
  split at made
  · cases made
    rfl
  · cases made
  · cases made
    rfl

theorem v6_family (made : sockaddrSetV6 addr port = (0,a)) : a.family = AF_INET6 ∨ a.family = AF_INET := by
  unfold sockaddrSetV6 at made
  split at made
  · cases made
    exact Or.inl rfl
  · cases made
  · dsimp only at made
    split at made
    · rename_i six
      cases made
      exact Or.inl six
    · split at made
      · rename_i four
        cases made
        exact Or.inr four
      · cases made

theorem fillPath_family (made : fillPath old memory len = some (0,a)) : a.family = AF_UNIX := by
  unfold fillPath at made
  split at made
  · cases made
  · obtain ⟨bytes,_,made⟩ := Option.bind_eq_some_iff.mp made
    split at made
    · cases made
      rfl
    · cases made

theorem unix_family (made : sockaddrSetUnix old path len = some (0,a)) : a.family = AF_UNIX := by
  unfold sockaddrSetUnix at made
  split at made
  · cases made
  · cases made
  · split at made
    · cases made
    · split at made
      · exact fillPath_family made
      · split at made
        · exact fillPath_family made
        · cases made

theorem Built.family (built : Built a) : a.family = AF_UNIX ∨ a.family = AF_INET ∨ a.family = AF_INET6 := by
  cases built with
  | v4 made => exact Or.inr (Or.inl (v4_family made))
  | v6 made => exact Or.inr (v6_family made).symm
  | unix made => exact Or.inl (unix_family made)

theorem Built.len_ge (built : Built a) : sizeofSa ≤ sockaddrLen a ∧ sockaddrLen a ≤ sizeofUnion := by
  rcases built.family with ux | v4 | v6
  · rw [sockaddrLen,if_pos ux]
    decide
  · rw [sockaddrLen,v4]
    decide
  · rw [sockaddrLen,v6]
    decide

-- The cleared structure has no family, so sixteen bytes are all it asks for.
theorem sockname_bytes (built : Built a) : (sockaddrSockname (.ok (bindName a))).2.sa =
    a.sa.take sizeofSa ++ List.replicate (sizeofUnion-sizeofSa) 0 := by
  have least := built.len_ge.1
  have whole := a.whole
  have offered : sockaddrLen zeroed = sizeofSa := by decide
  have stored : (bindName a).take (sockaddrLen zeroed) = a.sa.take sizeofSa := by
    rw [bindName,offered,List.take_take,Nat.min_eq_left least]
  have length : (a.sa.take sizeofSa).length = sizeofSa := by
    rw [List.length_take,whole]
    decide
  simp only [sockaddrSockname,Sockaddr.poke,stored]
  simp [put,zeroed,length]

theorem sockname_never_gives_back (built : Built a) :
    ¬ GivesBack a (sockaddrSockname (.ok (bindName a))) ∧
      (sockaddrSockname (.ok (bindName a))).1 = 0 ∧ (sockaddrSockname (.ok (bindName a))).2.family = 0 ∧
      ((sockaddrSockname (.ok (bindName a))).2.sa.take (sockaddrLen a) = a.sa.take (sockaddrLen a) ↔
        slice a.sa sizeofSa (sockaddrLen a-sizeofSa) = List.replicate (sockaddrLen a-sizeofSa) 0) := by
  refine ⟨?_,rfl,rfl,?_⟩
  · rintro ⟨_,family,_⟩
    have cleared : a.family = 0 := family.symm
    have known := built.family
    rw [cleared] at known
    exact absurd known (by decide)
  · obtain ⟨least,most⟩ := built.len_ge
    have length : (a.sa.take sizeofSa).length = sizeofSa := by
      rw [List.length_take,a.whole]
      decide
    obtain ⟨n,extra⟩ := Nat.exists_eq_add_of_le least
    have front : (a.sa.take sizeofSa ++ List.replicate (sizeofUnion-sizeofSa) 0).take (sizeofSa+n) =
        a.sa.take sizeofSa ++ List.replicate n 0 := by
      rw [List.take_add,List.take_left' length,List.drop_left' length,List.take_replicate,Nat.min_eq_left (by omega)]
    rw [sockname_bytes built,extra,Nat.add_sub_cancel_left,front,List.take_add,List.append_cancel_left_eq]
    exact eq_comm

-- 127.0.0.1:80
def loopback : Sockaddr := (sockaddrSetV4 (some (some ⟨[127,0,0,1],rfl⟩)) 80).2

theorem loopback_not_given_back : Built loopback ∧ ¬ GivesBack loopback (sockaddrSockname (.ok (bindName loopback))) ∧
    (sockaddrSockname (.ok (bindName loopback))).2.sa = loopback.sa := by
  have made : sockaddrSetV4 (some (some ⟨[127,0,0,1],rfl⟩)) 80 = (0,loopback) := rfl
  exact ⟨.v4 made,(sockname_never_gives_back (.v4 made)).1,by decide⟩

-- "/tmp/events.sock"
def eventsPath : List UInt8 := [47,116,109,112,47,101,118,101,110,116,115,46,115,111,99,107,0]
def eventsAddr : Sockaddr := (zeroed.withFamily AF_UNIX).poke 2 eventsPath (by decide)

theorem path_not_given_back : sockaddrSetUnix zeroed (some eventsPath) 0 = some (0,eventsAddr) ∧
    eventsAddr.family = AF_UNIX ∧ slice eventsAddr.sa 2 17 = eventsPath ∧
    (sockaddrSockname (.ok (bindName eventsAddr))).1 = 0 ∧ (sockaddrSockname (.ok (bindName eventsAddr))).2.family = 0 ∧
    slice (sockaddrSockname (.ok (bindName eventsAddr))).2.sa 2 17 = eventsPath.take 14 ++ [0,0,0] := by decide

end EventLib.Sockaddrs
