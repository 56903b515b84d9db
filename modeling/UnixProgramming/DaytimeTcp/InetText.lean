import UnixProgramming.Unp.SockNtop

/-!
# `inet_ntop_m` and `inet_pton_m`

The text of an IPv4 address is put together in an array on the stack and copied from there, and it
is read with `inet_aton`, which is not part of the sources. The array has room for each text.
-/

namespace UnixProgramming.DaytimeTcp

open CMemory Fallible Unp

def AF_INET : Int := 2

def ENOSPC : Int := 28

def EAFNOSUPPORT : Int := 97

/-- `strcpy(s, t)`. -/
def strcpy (s t : Block) : Except Fault Block := do
  let text ← readString t
  storeRange s 0 (text ++ [0])

/-- The value is where `strptr` points to, or NULL. -/
structure Ntop where
  value : Option Nat
  strptr : Block
  errno : Int

/-- `temp` is not initialised. -/
def inetNtopM (family : Int) (addrptr : Vector UInt8 4) (strptr : Block) (len : Nat)
    (temp : Vector UInt8 16) (errno : Int) : Except Fault Ntop := do
  if family = AF_INET then
    let temp := snprintfAll temp.toList (dotted addrptr)
    let text ← readString temp
    if text.length ≥ len then return ⟨none, strptr, ENOSPC⟩
    let strptr ← strcpy strptr temp
    return ⟨some 0, strptr, errno⟩
  else return ⟨none, strptr, EAFNOSUPPORT⟩

structure Pton where
  value : Int
  addrptr : Vector UInt8 4
  errno : Int

/-- `inet_aton` is given a text, and it gives the address or fails. -/
def inetPtonM (inetAton : Block → Option (Vector UInt8 4)) (family : Int) (strptr : Block)
    (addrptr : Vector UInt8 4) (errno : Int) : Except Fault Pton := do
  if family = AF_INET then
    let text ← readString strptr
    match inetAton text with
    | some inVal => return ⟨1, inVal, errno⟩
    | none => return ⟨0, addrptr, errno⟩
  else return ⟨-1, addrptr, EAFNOSUPPORT⟩

/-- What is documented of `inet_aton` for four decimal parts: a part has no leading zero, which
would make it octal, and it stands for one byte. -/
def ParsesQuads (inetAton : Block → Option (Vector UInt8 4)) : Prop :=
  ∀ t u v w, Octet t → Octet u → Octet v → Octet w →
    inetAton (quad t u v w) = some #v[octetValue t, octetValue u, octetValue v, octetValue w]

/-- The text in `temp` is whole. -/
theorem snprintfAll_dotted (temp : Vector UInt8 16) (a : Vector UInt8 4) :
    snprintfAll temp.toList (dotted a) =
      dotted a ++ 0 :: temp.toList.drop ((dotted a).length + 1) := by
  have short := length_dotted_le a
  rw [snprintfAll, Vector.length_toList, List.take_of_length_le short, fill]
  simp

theorem inetAton_dotted {inetAton : Block → Option (Vector UInt8 4)}
    (parses : ParsesQuads inetAton) (a : Vector UInt8 4) : inetAton (dotted a) = some a := by
  rw [dotted_eq_quad, parses _ _ _ _ (octet_decimal _) (octet_decimal _) (octet_decimal _)
    (octet_decimal _)]
  simp only [octetValue_decimal]
  congr 1
  ext i inside
  obtain rfl | rfl | rfl | rfl : i = 0 ∨ i = 1 ∨ i = 2 ∨ i = 3 := by omega
  all_goals rfl

/-- What is stored for an address in a destination. -/
def presented (a : Vector UInt8 4) (strptr : Block) : Block :=
  dotted a ++ 0 :: strptr.drop ((dotted a).length + 1)

section Ntop

variable (a : Vector UInt8 4) {strptr : Block} {len : Nat} (temp : Vector UInt8 16) (errno : Int)

theorem inetNtopM_fits (room : len ≤ strptr.length) (fits : (dotted a).length < len) :
    inetNtopM AF_INET a strptr len temp errno = .ok ⟨some 0, presented a strptr, errno⟩ := by
  have plain := nul_notMem_dotted a
  have stored : storeRange strptr 0 (dotted a ++ [0]) = .ok (presented a strptr) := by
    rw [storeRange_zero, fill]
    · simp [presented]
    · rw [List.length_append, List.length_singleton]
      omega
  have copied : strcpy strptr (dotted a ++ 0 :: temp.toList.drop ((dotted a).length + 1)) =
      .ok (presented a strptr) := by
    rw [strcpy, readString_append_nul plain, ok_bind, stored]
  rw [inetNtopM, if_pos rfl]
  simp only [snprintfAll_dotted, readString_append_nul plain, ok_bind, copied, pure_eq_ok]
  rw [if_neg (Nat.not_le.mpr fits)]

theorem inetNtopM_full (full : len ≤ (dotted a).length) :
    inetNtopM AF_INET a strptr len temp errno = .ok ⟨none, strptr, ENOSPC⟩ := by
  rw [inetNtopM, if_pos rfl]
  simp only [snprintfAll_dotted, readString_append_nul (nul_notMem_dotted a), ok_bind]
  rw [if_pos full]
  rfl

end Ntop

theorem inetPtonM_presented {inetAton : Block → Option (Vector UInt8 4)}
    (parses : ParsesQuads inetAton) (a : Vector UInt8 4) (strptr : Block)
    (addrptr : Vector UInt8 4) (errno : Int) :
    inetPtonM inetAton AF_INET (presented a strptr) addrptr errno = .ok ⟨1, a, errno⟩ := by
  rw [inetPtonM, if_pos rfl, presented, readString_append_nul (nul_notMem_dotted a), ok_bind,
    inetAton_dotted parses]
  rfl

/-- The text with its NUL is in the first `len` bytes, and the others are as they were. -/
structure Presents (a : Vector UInt8 4) (len : Nat) (before after : Block) : Prop where
  text : readString (after.take len) = .ok (dotted a)
  others : after.drop len = before.drop len
  length : after.length = before.length

theorem presents {a : Vector UInt8 4} {strptr : Block} {len : Nat} (room : len ≤ strptr.length)
    (fits : (dotted a).length < len) : Presents a len strptr (presented a strptr) := by
  have split : presented a strptr =
      (dotted a ++ [0]) ++ strptr.drop ((dotted a).length + 1) := by
    simp [presented]
  have size : (dotted a ++ [0]).length = (dotted a).length + 1 := by simp
  constructor
  case text =>
    have front : (presented a strptr).take len =
        dotted a ++ 0 :: (strptr.drop ((dotted a).length + 1)).take
          (len - ((dotted a).length + 1)) := by
      rw [split, List.take_append, List.take_of_length_le (by omega), size]
      simp
    rw [front, readString_append_nul (nul_notMem_dotted a)]
  case others =>
    rw [split, List.drop_append, List.drop_eq_nil_of_le (by omega), size, List.drop_drop,
      List.nil_append]
    congr 1
    omega
  case length =>
    rw [split, List.length_append, size, List.length_drop]
    omega

/-- `temp` has the whole text. With room for it and its NUL it is in the destination, and from
there it gives the address back. Without, nothing is stored. -/
def RoundTrip (inetAton : Block → Option (Vector UInt8 4)) (a : Vector UInt8 4) (strptr : Block)
    (len : Nat) (temp : Vector UInt8 16) (addrptr : Vector UInt8 4) (errno : Int) : Prop :=
  cString (snprintfAll temp.toList (dotted a)) = dotted a ∧
    if (dotted a).length < len then
      ∃ stored, inetNtopM AF_INET a strptr len temp errno = .ok ⟨some 0, stored, errno⟩ ∧
        Presents a len strptr stored ∧
        inetPtonM inetAton AF_INET stored addrptr errno = .ok ⟨1, a, errno⟩
    else inetNtopM AF_INET a strptr len temp errno = .ok ⟨none, strptr, ENOSPC⟩

/-- Each address in each destination of at least `len` bytes. -/
theorem inet_round_trip {inetAton : Block → Option (Vector UInt8 4)}
    (parses : ParsesQuads inetAton) (a : Vector UInt8 4) {strptr : Block} {len : Nat}
    (room : len ≤ strptr.length) (temp : Vector UInt8 16) (addrptr : Vector UInt8 4)
    (errno : Int) : RoundTrip inetAton a strptr len temp addrptr errno := by
  constructor
  · rw [snprintfAll_dotted, cString_append_nul, cString_of_notMem (nul_notMem_dotted a)]
  · split
    · rename_i fits
      exact ⟨_, inetNtopM_fits a temp errno room fits, presents room fits,
        inetPtonM_presented parses a strptr addrptr errno⟩
    · rename_i full
      exact inetNtopM_full a temp errno (Nat.not_lt.mp full)

/-- `inet_aton` of four decimal parts. -/
def quadAton (text : Block) : Option (Vector UInt8 4) :=
  match text.splitOn dot with
  | [t, u, v, w] =>
      if isOctet t && isOctet u && isOctet v && isOctet w then
        some #v[octetValue t, octetValue u, octetValue v, octetValue w]
      else none
  | _ => none

theorem quadAton_parses : ParsesQuads quadAton := by
  intro t u v w ht hu hv hw
  have parts : (quad t u v w).splitOn dot = [t, u, v, w] := by
    rw [quad, List.splitOn_append_cons_self_of_not_mem ht.dot_notMem,
      List.splitOn_append_cons_self_of_not_mem hu.dot_notMem,
      List.splitOn_append_cons_self_of_not_mem hv.dot_notMem,
      List.splitOn_eq_singleton hw.dot_notMem]
  rw [quadAton, parts]
  dsimp only
  rw [ht.isOctet, hu.isOctet, hv.isOctet, hw.isOctet]
  rfl

/-- The loopback address in an array of 16 bytes. -/
theorem inet_round_trip_loopback :
    RoundTrip quadAton #v[127, 0, 0, 1] (List.replicate 16 7) 16 (.replicate 16 170)
      #v[0, 0, 0, 0] 0 :=
  inet_round_trip quadAton_parses #v[127, 0, 0, 1] (by rw [List.length_replicate])
    (.replicate 16 170) #v[0, 0, 0, 0] 0

end UnixProgramming.DaytimeTcp
