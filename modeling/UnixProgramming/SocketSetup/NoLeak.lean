import UnixProgramming.SocketSetup.Helpers

/-!
# The helpers do not leak

Behind the new socket every call leaves the descriptors as they are, up to the `close` of the
label, which takes the socket away again. So it is enough to say of each way out what it does to
the descriptors of the start.
-/

namespace UnixProgramming.SocketSetup

open CMemory Fallible DescriptorTable

variable {ρ φ : Type}

/-- A value that is not negative is the one new descriptor. Otherwise there is none, and none of
the earlier ones is missing. -/
structure NoLeak (t t' : Table Nat ρ) (ret : Int) : Prop where
  opened : ∀ fd : Nat, ret = fd → t fd = none ∧ t' fd ≠ none ∧ ∀ d, d ≠ fd → t' d = t d
  failed : ret < 0 → t' = t

section Descriptors

variable {t t' : Table Nat ρ} {ret : Int}

theorem NoLeak.refused (negative : ret < 0) (same : t' = t) : NoLeak t t' ret where
  opened fd value := by omega
  failed _ := same

theorem NoLeak.returned (new : NewSocket t) (table : t' = t.opened new.fd new.socket) :
    NoLeak t t' new.fd where
  opened fd value := by
    obtain rfl : new.fd = fd := Int.ofNat_inj.mp value
    subst table
    refine ⟨new.new, ?_, fun d ne => Table.opened_of_ne t new.socket ne⟩
    rw [Table.opened_self]
    exact Option.some_ne_none _
  failed negative := absurd negative (by omega)

theorem NoLeak.closed (new : NewSocket t) (negative : ret < 0)
    (table : t' = (t.opened new.fd new.socket).close new.fd) : NoLeak t t' ret :=
  .refused negative (table.trans (Table.close_opened new.new new.socket))

end Descriptors

namespace World

variable {s s' : World ρ φ}

@[simp] theorem fds_failed (e : Errno) : (s.failed e).fds = s.fds := rfl

@[simp] theorem files_failed (e : Errno) : (s.failed e).files = s.files := rfl

@[simp] theorem heap_failed (e : Errno) : (s.failed e).heap = s.heap := rfl

@[simp] theorem fds_called {α : Type} (o : Except Errno α) : (s.called o).fds = s.fds := by
  cases o <;> rfl

@[simp] theorem files_called {α : Type} (o : Except Errno α) : (s.called o).files = s.files := by
  cases o <;> rfl

@[simp] theorem heap_called {α : Type} (o : Except Errno α) : (s.called o).heap = s.heap := by
  cases o <;> rfl

@[simp] theorem fds_close (fd : Nat) (o : Except Errno Unit) :
    (s.close fd o).fds = s.fds.close fd := by
  rw [close, fds_called]

@[simp] theorem files_close (fd : Nat) (o : Except Errno Unit) :
    (s.close fd o).files = s.files := by
  rw [close, files_called]

@[simp] theorem heap_close (fd : Nat) (o : Except Errno Unit) :
    (s.close fd o).heap = s.heap := by
  rw [close, heap_called]

@[simp] theorem fds_unlink (path : Block) (o : Except Errno Unit) :
    (s.unlink path o).fds = s.fds := by
  cases o <;> rfl

@[simp] theorem heap_unlink (path : Block) (o : Except Errno Unit) :
    (s.unlink path o).heap = s.heap := by
  cases o <;> rfl

@[simp] theorem fds_errout (cleanup : World ρ φ → World ρ φ) :
    (s.errout cleanup).fds = (cleanup s).fds := rfl

@[simp] theorem files_errout (cleanup : World ρ φ → World ρ φ) :
    (s.errout cleanup).files = (cleanup s).files := rfl

@[simp] theorem heap_errout (cleanup : World ρ φ → World ρ φ) :
    (s.errout cleanup).heap = (cleanup s).heap := rfl

@[simp] theorem fds_socket {t : Table Nat ρ} (new : NewSocket t) :
    (s.socket new).fds = s.fds.opened new.fd new.socket := rfl

@[simp] theorem fds_free (p : Nat) : (s.free p).fds = s.fds := rfl

/-- What a `bind` that succeeds does. -/
theorem bind_cases {files : Block → Option φ} {addr : Sockaddr} {o : Except Errno (NewFile files)}
    (bound : s.bind addr o = .ok s') :
    ∃ new, o = .ok new ∧
      (s' = s ∨ ∃ path, addr = .unix path ∧ s.files path = none ∧
        s' = { s with files := Function.update s.files path (some new.file) }) := by
  cases o with
  | error e => cases bound
  | ok new =>
      refine ⟨new, rfl, ?_⟩
      cases addr with
      | other => exact .inl (Except.ok.inj bound).symm
      | unix path =>
          cases path with
          | nil => exact .inl (Except.ok.inj bound).symm
          | cons c path =>
              simp only [bind] at bound
              split at bound
              case isTrue => cases bound
              case isFalse free =>
                exact .inr ⟨c :: path, rfl, by simpa using free, (Except.ok.inj bound).symm⟩

theorem fds_bind {files : Block → Option φ} {addr : Sockaddr} {o : Except Errno (NewFile files)}
    (bound : s.bind addr o = .ok s') : s'.fds = s.fds := by
  obtain ⟨new, -, rfl | ⟨path, -, -, rfl⟩⟩ := bind_cases bound
  · rfl
  · rfl

/-- A file that is left behind an `unlink` was there. -/
theorem files_of_unlink {path name : Block} {o : Except Errno Unit} {file : φ}
    (left : (s.unlink path o).files name = some file) : s.files name = some file := by
  cases o with
  | error e => exact left
  | ok done =>
      simp only [unlink, Function.update_apply] at left
      split at left
      · cases left
      · exact left

end World

/-- A text of at most 107 bytes fits in `sun_path`. -/
theorem store_sunPath {text : Block} (fits : text.length < SUN_PATH) :
    ∃ back, storeRange (List.replicate SUN_PATH 0) 0 (text ++ [0]) = .ok (text ++ 0 :: back) := by
  refine ⟨(List.replicate SUN_PATH 0).drop (text ++ [0]).length, ?_⟩
  have room : (text ++ [0]).length ≤ (List.replicate SUN_PATH (0 : UInt8)).length := by
    rw [List.length_append, List.length_replicate]
    exact fits
  rw [storeRange_zero room, fill]
  simp

section Listen

variable {s : World ρ φ}

/-- The value of a function behind its label. -/
theorem closed_errout (new : NewSocket s.fds) {s' : World ρ φ} {ret : Int} (negative : ret < 0)
    (fds : s'.fds = s.fds.opened new.fd new.socket) (e : Errno) (o : Except Errno Unit) :
    NoLeak s.fds ((s'.failed e).errout (·.close new.fd o)).fds ret := by
  apply NoLeak.closed new negative
  rw [World.fds_errout, World.fds_close, World.fds_failed, fds]

theorem servListen_noLeak (name : Block) (o : ListenCalls s) :
    ∃ ret s', servListen s name o = .ok (ret, s') ∧ NoLeak s.fds s'.fds ret := by
  rw [servListen]
  split
  case isTrue => exact ⟨_, _, rfl, .refused (by decide) rfl⟩
  case isFalse short =>
    cases o.socket with
    | error e => exact ⟨_, _, rfl, .refused (by decide) rfl⟩
    | ok new =>
        obtain ⟨back, stored⟩ := store_sunPath (not_le.mp short)
        have begun : ((s.socket new).unlink (cString name) o.unlink).fds =
            s.fds.opened new.fd new.socket := by
          rw [World.fds_unlink, World.fds_socket]
        dsimp only
        rw [stored, ok_bind]
        cases bound : World.bind ((s.socket new).unlink (cString name) o.unlink)
            (.unix ((cString name ++ 0 :: back).take (strlen name))) o.bind with
        | error e => exact ⟨_, _, rfl, closed_errout new (by decide) begun e o.close⟩
        | ok s' =>
            have fds := (World.fds_bind bound).trans begun
            cases o.listen with
            | error e => exact ⟨_, _, rfl, closed_errout new (by decide) fds e o.close⟩
            | ok done => exact ⟨_, _, rfl, .returned new fds⟩

end Listen

section Servers

variable {s : World ρ φ}

theorem serverErrout_noLeak (new : NewSocket s.fds) (s' : World ρ φ)
    (fds : s'.fds = s.fds.opened new.fd new.socket) (o : ServerCalls s) :
    NoLeak s.fds (serverErrout s' new.fd o).2.fds (serverErrout s' new.fd o).1 := by
  have negative : (serverErrout s' new.fd o).1 < 0 := (by decide : (-1 : Int) < 0)
  apply NoLeak.closed new negative
  rw [serverErrout, World.fds_errout, World.fds_close, World.fds_called, fds]

theorem serverBind_noLeak (new : NewSocket s.fds) {s' : World ρ φ}
    (fds : s'.fds = s.fds.opened new.fd new.socket) (type : Int) (addr : Sockaddr)
    (o : ServerCalls s) :
    NoLeak s.fds (serverBind s' new.fd type addr o).2.fds
      (serverBind s' new.fd type addr o).1 := by
  rw [serverBind]
  cases bound : s'.bind addr o.bind with
  | error e => exact serverErrout_noLeak new (s'.failed e) fds o
  | ok s'' =>
      have fds' := (World.fds_bind bound).trans fds
      dsimp only
      split
      case isTrue =>
        cases o.listen with
        | error e => exact serverErrout_noLeak new (s''.failed e) fds' o
        | ok done => exact .returned new fds'
      case isFalse => exact .returned new fds'

theorem initServer_noLeak (type : Int) (addr : Sockaddr) (o : ServerCalls s) :
    NoLeak s.fds (initServer s type addr o).2.fds (initServer s type addr o).1 := by
  rw [initServer]
  cases o.socket with
  | error e => exact .refused (by decide : (-1 : Int) < 0) (World.fds_called o.printf)
  | ok new => exact serverBind_noLeak new rfl type addr o

theorem initServerV2_noLeak (type : Int) (addr : Sockaddr) (o : ServerCalls s) :
    NoLeak s.fds (initServerV2 s type addr o).2.fds (initServerV2 s type addr o).1 := by
  rw [initServerV2]
  cases o.socket with
  | error e => exact .refused (by decide : (-1 : Int) < 0) (World.fds_called o.printf)
  | ok new =>
      cases o.setsockopt with
      | error e => exact serverErrout_noLeak new ((s.socket new).failed e) rfl o
      | ok done => exact serverBind_noLeak new rfl type addr o

end Servers

section Accept

variable {s : World ρ φ}

/-- The address of the caller ends in its array. -/
def Accepted.Fits {fds : Table Nat ρ} (new : Accepted fds) : Prop :=
  2 ≤ new.len.toNat ∧ new.len.toNat ≤ 110

/-- The block is taken from the heap once, and given back once. -/
def FreedOnce (s s' : World ρ φ) (malloc : Except Errno Nat) : Prop :=
  ∀ p, malloc = .ok p → s'.heap = s.heap ++ [.malloc p, .free p]

theorem servAccept_noLeak (uidptr : Option UInt32) (o : AcceptCalls s) {ret : Int}
    {uid : Option UInt32} {s' : World ρ φ} (run : servAccept s uidptr o = .ok (ret, uid, s')) :
    NoLeak s.fds s'.fds ret ∧ FreedOnce s s' o.malloc := by
  rw [servAccept] at run
  cases malloc : o.malloc with
  | error e =>
      rw [malloc] at run
      cases run
      exact ⟨.refused (by decide) rfl, fun p same => by cases same⟩
  | ok p =>
      have freed {s'' : World ρ φ} (heap : s''.heap = (s.malloc p).heap) :
          FreedOnce s (s''.free p) (.ok p) := by
        intro p' same
        cases same
        rw [World.free, heap, World.malloc, List.append_assoc]
        rfl
      rw [malloc] at run
      dsimp only at run
      cases accept : o.accept with
      | error e =>
          rw [accept] at run
          cases run
          exact ⟨.refused (by decide) rfl, freed rfl⟩
      | ok new =>
          rw [accept] at run
          obtain ⟨path, -, run⟩ := bind_ok run
          obtain ⟨copied, -, run⟩ := bind_ok run
          obtain ⟨addrPath, -, run⟩ := bind_ok run
          cases stat : o.stat with
          | error e =>
              rw [stat] at run
              cases run
              refine ⟨.closed new.toNewSocket (by decide) ?_, fun p' same => ?_⟩
              · rw [World.fds_errout, World.fds_free, World.fds_close]
                rfl
              · cases same
                rw [World.heap_errout, World.free, World.heap_close, World.heap_failed]
                exact List.append_assoc _ _ _
          | ok uid' =>
              rw [stat] at run
              cases run
              refine ⟨.returned new.toNewSocket ?_, freed ?_⟩
              · rw [World.fds_free, World.fds_unlink]
                rfl
              · rw [World.heap_unlink]
                rfl

/-- `memcpy` and the NUL behind it stay in their blocks. -/
theorem copyPath_eq (sunPath : Vector UInt8 108) (garbage : Vector UInt8 109) {len : Nat}
    (fits : len ≤ 108) :
    ∃ path copied addrPath, loadRange sunPath.toList 0 len = .ok path ∧
      storeRange garbage.toList 0 path = .ok copied ∧ store copied len 0 = .ok addrPath := by
  have load : 0 + len ≤ sunPath.toList.length := by
    rw [Vector.length_toList]
    omega
  have length := length_take_drop load
  have room : ((sunPath.toList.drop 0).take len).length ≤ garbage.toList.length := by
    rw [length, Vector.length_toList]
    omega
  refine ⟨_, _, _, loadRange_eq load, storeRange_zero room, if_pos ?_⟩
  rw [length_fill room, Vector.length_toList]
  omega

theorem servAccept_returns (uidptr : Option UInt32) (o : AcceptCalls s)
    (fits : ∀ new, o.accept = .ok new → new.Fits) : ∃ r, servAccept s uidptr o = .ok r := by
  rw [servAccept]
  cases o.malloc with
  | error e => exact ⟨_, rfl⟩
  | ok p =>
      cases accept : o.accept with
      | error e => exact ⟨_, rfl⟩
      | ok new =>
          obtain ⟨lower, upper⟩ := fits new accept
          have len : (new.len - 2).toNat = new.len.toNat - 2 :=
            UInt32.toNat_sub_of_le new.len 2 (UInt32.le_iff_toNat_le.mpr lower)
          obtain ⟨path, copied, addrPath, load, copy, ending⟩ :=
            copyPath_eq new.sunPath o.garbage (by omega : (new.len - 2).toNat ≤ 108)
          dsimp only
          rw [load, ok_bind, copy, ok_bind, ending, ok_bind]
          cases o.stat with
          | error e => exact ⟨_, rfl⟩
          | ok uid => exact ⟨_, rfl⟩

end Accept

section Connect

variable {s : World ρ φ}

theorem length_clientPath (pid : Fin (2 ^ 31)) : (clientPath pid).length < SUN_PATH := by
  have small : (pid : Nat) < 10 ^ 10 := pid.isLt.trans (by decide)
  have digits := length_decimal_le (by decide : 0 < 10) small
  have first : cliPath.length = 14 := by decide
  have last : (ascii ".test").length = 5 := by decide
  simp only [clientPath, fiveDigits, List.length_append, List.length_replicate, first, last,
    SUN_PATH]
  omega

/-- The file that `bind` created has no name. -/
def NoFile (s' : World ρ φ) (bind : Except Errno (NewFile s.files)) : Prop :=
  ∀ new, bind = .ok new → ∀ name, s'.files name ≠ some new.file

theorem NoFile.of_earlier {s' : World ρ φ} {bind : Except Errno (NewFile s.files)}
    (earlier : ∀ name file, s'.files name = some file → s.files name = some file) :
    NoFile s' bind :=
  fun new _ name left => new.new name (earlier name new.file left)

/-- The label takes away the name that `bind` has made. -/
theorem noFile_unlink {begun s' : World ρ φ} {sunPath : Block}
    {bind : Except Errno (NewFile s.files)}
    (earlier : ∀ name file, begun.files name = some file → s.files name = some file)
    (bound : begun.bind (.unix (sunPath.take (strlen sunPath))) bind = .ok s') (e : Errno)
    {fd : Nat} (o : Except Errno Unit) :
    NoFile ((s'.failed e).errout fun s => (s.close fd o).unlink (cString sunPath) (.ok ()))
      bind := by
  obtain ⟨new', given, ways⟩ := World.bind_cases bound
  intro new same name left
  rw [given] at same
  cases same
  have removed : (s'.files name = some new'.file) ∧ name ≠ cString sunPath := by
    simp only [World.files_errout, World.unlink, World.files_close, World.files_failed,
      Function.update_apply] at left
    split at left
    case isTrue => cases left
    case isFalse ne => exact ⟨left, ne⟩
  obtain rfl | ⟨path, addr, -, rfl⟩ := ways
  · exact new'.new name (earlier name _ removed.1)
  · obtain rfl : cString sunPath = path := by
      rw [← take_strlen]
      exact Sockaddr.unix.inj addr
    have other : begun.files name = some new'.file := by
      rw [← removed.1]
      exact (Function.update_of_ne removed.2 _ _).symm
    exact new'.new name (earlier name _ other)

theorem cliConn_noLeak (serverSockPath : Block) (o : ConnCalls s) :
    ∃ ret s', cliConn s serverSockPath o = .ok (ret, s') ∧ NoLeak s.fds s'.fds ret ∧
      (ret < 0 → o.unlinkBound = .ok () → NoFile s' o.bind) := by
  rw [cliConn]
  split
  case isTrue => exact ⟨_, _, rfl, .refused (by decide) rfl, fun _ _ => .of_earlier fun _ _ => id⟩
  case isFalse short =>
    cases o.socket with
    | error e => exact ⟨_, _, rfl, .refused (by decide) rfl, fun _ _ => .of_earlier fun _ _ => id⟩
    | ok new =>
        obtain ⟨back, stored⟩ := store_sunPath (length_clientPath o.getpid)
        obtain ⟨back', stored'⟩ := store_sunPath (not_le.mp short)
        dsimp only
        rw [stored, ok_bind]
        generalize clientPath o.getpid ++ 0 :: back = sunPath
        have begun : ((s.socket new).unlink (cString sunPath) o.unlink).fds =
            s.fds.opened new.fd new.socket := by
          rw [World.fds_unlink, World.fds_socket]
        have earlier : ∀ name file,
            ((s.socket new).unlink (cString sunPath) o.unlink).files name = some file →
              s.files name = some file :=
          fun _ _ left => World.files_of_unlink (s := s.socket new) left
        cases bound : World.bind ((s.socket new).unlink (cString sunPath) o.unlink)
            (.unix (sunPath.take (strlen sunPath))) o.bind with
        | error e =>
            refine ⟨_, _, rfl, closed_errout new (by decide) begun e o.close, fun _ _ => ?_⟩
            apply NoFile.of_earlier
            intro name file left
            rw [World.files_errout, World.files_close, World.files_failed] at left
            exact earlier name file left
        | ok s' =>
            have fds := (World.fds_bind bound).trans begun
            dsimp only
            rw [stored', ok_bind]
            cases o.connect with
            | error e =>
                refine ⟨_, _, rfl, .closed new (by decide) ?_, fun _ removed => ?_⟩
                · rw [World.fds_errout, World.fds_unlink, World.fds_close, World.fds_failed, fds]
                · rw [removed]
                  exact noFile_unlink earlier bound e o.close
            | ok done =>
                refine ⟨_, _, rfl, .returned new fds, fun negative => ?_⟩
                exact absurd negative (by omega)

end Connect

/-- None of the helpers leaks, whatever their calls give back. The copy of the caller's path in
`serv_accept` is in its bounds for an address that ends in `sun_path`. -/
theorem setup_noLeak (s : World ρ φ) :
    (∀ name (o : ListenCalls s), ∃ ret s', servListen s name o = .ok (ret, s') ∧
        NoLeak s.fds s'.fds ret) ∧
      (∀ uidptr (o : AcceptCalls s),
        ((∀ new, o.accept = .ok new → new.Fits) → ∃ r, servAccept s uidptr o = .ok r) ∧
          ∀ ret uid s', servAccept s uidptr o = .ok (ret, uid, s') →
            NoLeak s.fds s'.fds ret ∧ FreedOnce s s' o.malloc) ∧
      (∀ serverSockPath (o : ConnCalls s),
        ∃ ret s', cliConn s serverSockPath o = .ok (ret, s') ∧ NoLeak s.fds s'.fds ret ∧
          (ret < 0 → o.unlinkBound = .ok () → NoFile s' o.bind)) ∧
      (∀ type addr (o : ServerCalls s),
        NoLeak s.fds (initServer s type addr o).2.fds (initServer s type addr o).1) ∧
      ∀ type addr (o : ServerCalls s),
        NoLeak s.fds (initServerV2 s type addr o).2.fds (initServerV2 s type addr o).1 :=
  ⟨servListen_noLeak,
    fun uidptr o => ⟨servAccept_returns uidptr o, fun _ _ _ => servAccept_noLeak uidptr o⟩,
    cliConn_noLeak, initServer_noLeak, initServerV2_noLeak⟩

end UnixProgramming.SocketSetup
