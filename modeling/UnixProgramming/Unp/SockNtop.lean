import UnixProgramming.Library.CString
import UnixProgramming.Library.DecimalText
import UnixProgramming.Library.Fallible

/-!
# `sock_ntop` of `unp.c`

The text of an Internet socket address is the text of `inet_ntop`, a colon and the port. The IPv6
text has colons as well, and the last one tells where the port begins. For the port 0 both cases
leave the switch without their `return`, and the function returns NULL.
-/

namespace UnixProgramming.Unp

open CMemory Fallible

/-- A port in network byte order. -/
structure Port where
  high : UInt8
  low : UInt8
  deriving DecidableEq

def ntohs (port : Port) : Nat := port.high.toNat * 256 + port.low.toNat

inductive Sockaddr
  | inet (sinAddr : Vector UInt8 4) (sinPort : Port)
  | inet6 (sin6Addr : Vector UInt8 16) (sin6Port : Port)
  | other

/-- The texts of `inet_ntop` for the two families. -/
structure InetTexts where
  inet : Vector UInt8 4 → Block
  inet6 : Vector UInt8 16 → Block

/-- What is documented of the texts: they are strings of at most 45 characters, and different
addresses of a family have different ones. -/
structure InetTexts.Standard (texts : InetTexts) : Prop where
  plain : ∀ a, 0 ∉ texts.inet a
  plain6 : ∀ a, 0 ∉ texts.inet6 a
  short : ∀ a, (texts.inet a).length ≤ 45
  short6 : ∀ a, (texts.inet6 a).length ≤ 45
  injective : ∀ a b, texts.inet a = texts.inet b → a = b
  injective6 : ∀ a b, texts.inet6 a = texts.inet6 b → a = b

/-- `inet_ntop` stores the text with its NUL, or it fails with ENOSPC. -/
def inetNtop (text dst : Block) : Option Block :=
  if text.length < dst.length then some (fill dst (text ++ [0])) else none

/-- `snprintf(s, sizeof(s), ...)` of a text. -/
def snprintfAll (s text : Block) : Block := fill s (text.take (s.length - 1) ++ [0])

/-- `strcat(s, t)`. -/
def strcat (s t : Block) : Except Fault Block := do
  let front ← readString s
  let back ← readString t
  storeRange s front.length (back ++ [0])

/-- What both families do behind `inet_ntop`. `portstr` is not initialised. -/
def appendPort (portstr addrStr : Block) (port : Port) : Except Fault (Option Block) := do
  if ntohs port ≠ 0 then
    let portstr := snprintfAll portstr (ascii ":" ++ decimal (ntohs port))
    let addrStr ← strcat addrStr portstr
    return some addrStr
  else return none

/-- `addr_str` after `bzero`. -/
def clearedAddrStr : Block := List.replicate 256 0

/-- The value is `addr_str`, or NULL. -/
def sockNtop (texts : InetTexts) (portstr : Vector UInt8 8) (sa : Sockaddr) :
    Except Fault (Option Block) :=
  match sa with
  | .inet sinAddr sinPort =>
      match inetNtop (texts.inet sinAddr) clearedAddrStr with
      | none => return none
      | some addrStr => appendPort portstr.toList addrStr sinPort
  | .inet6 sin6Addr sin6Port =>
      match inetNtop (texts.inet6 sin6Addr) clearedAddrStr with
      | none => return none
      | some addrStr => appendPort portstr.toList addrStr sin6Port
  | .other => return none

namespace Sockaddr

def family : Sockaddr → Nat
  | inet _ _ => 2
  | inet6 _ _ => 10
  | other => 0

def port : Sockaddr → Nat
  | inet _ port => ntohs port
  | inet6 _ port => ntohs port
  | other => 0

/-- The text of `inet_ntop` for the address. -/
def hostText (texts : InetTexts) : Sockaddr → Block
  | inet a _ => texts.inet a
  | inet6 a _ => texts.inet6 a
  | other => []

end Sockaddr

theorem ntohs_inj {p q : Port} : ntohs p = ntohs q ↔ p = q := by
  constructor
  · intro same
    obtain ⟨high, low⟩ := p
    obtain ⟨high', low'⟩ := q
    have lower := low.toNat_lt
    have lower' := low'.toNat_lt
    simp only [ntohs] at same
    simp only [Port.mk.injEq]
    exact ⟨UInt8.toNat_inj.mp (by omega), UInt8.toNat_inj.mp (by omega)⟩
  · rintro rfl
    rfl

theorem ntohs_lt (p : Port) : ntohs p < 65536 := by
  have high := p.high.toNat_lt
  have low := p.low.toNat_lt
  rw [ntohs]
  omega

/-- A colon and the number of the port. -/
def portText (port : Nat) : Block := ascii ":" ++ decimal port

theorem portText_eq (port : Nat) : portText port = 58 :: decimal port := rfl

theorem length_portText_le (p : Port) : (portText (ntohs p)).length ≤ 6 := by
  have small := ntohs_lt p
  have digits := length_decimal_le (by decide : 0 < 5) (by omega : ntohs p < 10 ^ 5)
  rw [portText_eq, List.length_cons]
  omega

theorem nul_notMem_portText (port : Nat) : 0 ∉ portText port := by
  rw [portText_eq, List.mem_cons]
  rintro (colon | digit)
  · exact absurd colon (by decide)
  · exact notMem_decimal (.inl (by decide)) port digit

/-- The port has room in `portstr`, and both have room in `addr_str`. -/
theorem appendPort_eq {portstr text : Block} (size : portstr.length = 8) (plain : 0 ∉ text)
    (short : text.length ≤ 45) (p : Port) :
    ∃ back, appendPort portstr (fill clearedAddrStr (text ++ [0])) p =
      .ok (if ntohs p = 0 then none else some (text ++ portText (ntohs p) ++ 0 :: back)) := by
  rw [appendPort]
  by_cases zero : ntohs p = 0
  · exact ⟨[], by rw [if_neg (not_not.mpr zero), if_pos zero]; rfl⟩
  · have room := length_portText_le p
    have whole : snprintfAll portstr (ascii ":" ++ decimal (ntohs p)) =
        portText (ntohs p) ++ 0 :: portstr.drop ((portText (ntohs p)).length + 1) := by
      rw [snprintfAll, size, ← portText, List.take_of_length_le (by omega), fill]
      simp
    have first : fill clearedAddrStr (text ++ [0]) =
        text ++ 0 :: List.replicate (256 - (text.length + 1)) 0 := by
      rw [fill, clearedAddrStr, List.drop_replicate]
      simp
    have stored : storeRange (text ++ 0 :: List.replicate (256 - (text.length + 1)) 0) text.length
        (portText (ntohs p) ++ [0]) = .ok (text ++ (portText (ntohs p) ++ [0]) ++
          (0 :: List.replicate (256 - (text.length + 1)) 0).drop
            (portText (ntohs p) ++ [0]).length) := by
      apply storeRange_of_split rfl rfl
      simp
      omega
    refine ⟨(0 :: List.replicate (256 - (text.length + 1)) 0).drop
      (portText (ntohs p) ++ [0]).length, ?_⟩
    rw [if_pos zero, if_neg zero]
    dsimp only
    rw [whole, first, strcat, readString_append_nul plain, ok_bind,
      readString_append_nul (nul_notMem_portText _), ok_bind, stored, ok_bind, pure_eq_ok]
    simp

theorem inetNtop_eq {text : Block} (short : text.length ≤ 45) :
    inetNtop text clearedAddrStr = some (fill clearedAddrStr (text ++ [0])) := by
  rw [inetNtop, if_pos]
  rw [clearedAddrStr, List.length_replicate]
  omega

section Texts

variable {texts : InetTexts} {sa sa' : Sockaddr}

/-- The text of an address, and NULL for the port 0. -/
theorem sockNtop_eq (standard : texts.Standard) (portstr : Vector UInt8 8)
    (internet : sa.family ≠ 0) :
    0 ∉ sa.hostText texts ∧ ∃ back, sockNtop texts portstr sa =
      .ok (if sa.port = 0 then none
        else some (sa.hostText texts ++ portText sa.port ++ 0 :: back)) := by
  have size : portstr.toList.length = 8 := Vector.length_toList
  cases sa with
  | inet sinAddr sinPort =>
      refine ⟨standard.plain _, ?_⟩
      obtain ⟨back, stored⟩ :=
        appendPort_eq size (standard.plain _) (standard.short sinAddr) sinPort
      refine ⟨back, ?_⟩
      unfold sockNtop
      simp only [inetNtop_eq (standard.short sinAddr)]
      exact stored
  | inet6 sin6Addr sin6Port =>
      refine ⟨standard.plain6 _, ?_⟩
      obtain ⟨back, stored⟩ :=
        appendPort_eq size (standard.plain6 _) (standard.short6 sin6Addr) sin6Port
      refine ⟨back, ?_⟩
      unfold sockNtop
      simp only [inetNtop_eq (standard.short6 sin6Addr)]
      exact stored
  | other => exact absurd rfl internet

/-- Address and port can be read back from the text. -/
theorem sockaddr_of_text (standard : texts.Standard) (internet : sa.family ≠ 0)
    (family : sa'.family = sa.family)
    (same : sa'.hostText texts ++ portText sa'.port = sa.hostText texts ++ portText sa.port) :
    sa' = sa := by
  have noColon (n : Nat) : (58 : UInt8) ∉ decimal n := notMem_decimal (.inr (by decide)) n
  rw [portText_eq, portText_eq, append_cons_inj_last (noColon _) (noColon _), decimal_inj] at same
  obtain ⟨host, port⟩ := same
  cases sa with
  | inet a p =>
      cases sa' with
      | inet a' p' => rw [standard.injective a' a host, ntohs_inj.mp port]
      | inet6 a' p' => cases family
      | other => cases family
  | inet6 a p =>
      cases sa' with
      | inet a' p' => cases family
      | inet6 a' p' => rw [standard.injective6 a' a host, ntohs_inj.mp port]
      | other => cases family
  | other => exact absurd rfl internet

end Texts

/-- The value is a string, and no other address of the family gives the same one. -/
def NtopRight (texts : InetTexts) (portstr : Vector UInt8 8) (sa : Sockaddr) : Prop :=
  ∃ s back, sockNtop texts portstr sa = .ok (some (s ++ 0 :: back)) ∧ 0 ∉ s ∧
    ∀ portstr' sa' b, sa'.family = sa.family → sa' ≠ sa →
      sockNtop texts portstr' sa' = .ok (some b) → cString b ≠ s

/-- `sock_ntop` stays in its arrays, and it gives each address its own text exactly where the port
is not 0. -/
theorem sockNtop_right_iff {texts : InetTexts} (standard : texts.Standard)
    (portstr : Vector UInt8 8) {sa : Sockaddr} (internet : sa.family ≠ 0) :
    (∃ r, sockNtop texts portstr sa = .ok r) ∧ (NtopRight texts portstr sa ↔ sa.port ≠ 0) := by
  obtain ⟨plain, back, run⟩ := sockNtop_eq standard portstr internet
  refine ⟨⟨_, run⟩, ⟨?_, fun nonzero => ?_⟩⟩
  · rintro ⟨s, back', run', -⟩ zero
    rw [run, if_pos zero] at run'
    cases run'
  · rw [if_neg nonzero] at run
    have plainText : 0 ∉ sa.hostText texts ++ portText sa.port := by
      rw [List.mem_append, not_or]
      exact ⟨plain, nul_notMem_portText _⟩
    refine ⟨_, back, run, plainText, fun portstr' sa' b family other run' same => other ?_⟩
    have internet' : sa'.family ≠ 0 := family ▸ internet
    obtain ⟨plain', back', text'⟩ := sockNtop_eq standard portstr' internet'
    rw [run'] at text'
    split at text'
    · cases text'
    · cases text'
      have plainText' : 0 ∉ sa'.hostText texts ++ portText sa'.port := by
        rw [List.mem_append, not_or]
        exact ⟨plain', nul_notMem_portText _⟩
      rw [cString_append_nul, cString_of_notMem plainText'] at same
      exact sockaddr_of_text standard internet family same

def fullTexts : InetTexts := ⟨dotted, hextets⟩

theorem fullTexts_standard : fullTexts.Standard where
  plain := nul_notMem_dotted
  plain6 := nul_notMem_hextets
  short a := (length_dotted_le a).trans (by decide)
  short6 a := (length_hextets a).trans_le (by decide)
  injective _ _ := dotted_injective
  injective6 _ _ := hextets_injective

theorem sockNtop_right_loopback :
    (∃ r, sockNtop fullTexts (.replicate 8 170) (.inet #v[127, 0, 0, 1] ⟨0, 7⟩) = .ok r) ∧
      (NtopRight fullTexts (.replicate 8 170) (.inet #v[127, 0, 0, 1] ⟨0, 7⟩) ↔
        Sockaddr.port (.inet #v[127, 0, 0, 1] ⟨0, 7⟩) ≠ 0) :=
  sockNtop_right_iff fullTexts_standard (.replicate 8 170) (by decide)

/-- A socket that is not bound has the port 0. -/
theorem sockNtop_unbound :
    sockNtop fullTexts (.replicate 8 170) (.inet #v[0, 0, 0, 0] ⟨0, 0⟩) = .ok none ∧
      ¬ NtopRight fullTexts (.replicate 8 170) (.inet #v[0, 0, 0, 0] ⟨0, 0⟩) := by
  obtain ⟨-, back, run⟩ := sockNtop_eq fullTexts_standard (.replicate 8 170)
    (by decide : Sockaddr.family (.inet #v[0, 0, 0, 0] ⟨0, 0⟩) ≠ 0)
  rw [if_pos (by decide)] at run
  refine ⟨run, ?_⟩
  rintro ⟨s, back', run', -⟩
  rw [run] at run'
  cases run'

end UnixProgramming.Unp
