import UnixProgramming.Ftw.Totals
import UnixProgramming.Library.CString
import UnixProgramming.Library.Fallible

/-!
# `dopath` of `ch4_directory/test.c`

`dopath` calls a function for the path in `fullpath` and, below a directory, for everything in
it. It appends the name of an entry to the path in the same buffer before it calls itself, and
takes it off again. The result of the first call in a directory is compared with `ret` where it
should be stored to it, so a directory is entered depending on what `ret` holds uninitialised.

The value of the callback may depend on all calls before, and `ret` may hold anything in each
activation. There is an activation for each path at most. `realloc` and `closedir` succeed. The
depth of the recursion is limited by `depth`.
-/

namespace UnixProgramming.Ftw

open CMemory Fallible

def slash : UInt8 := 47

def NAME_MAX : Nat := 255

/-- A call of the callback. The mode is what `lstat` has stored, if it succeeded. -/
structure Call where
  path : Block
  mode : Option Mode
  type : FtwType
  deriving DecidableEq

/-- The file system, the callback, and the memory that is read uninitialised. -/
structure Sys where
  lstat : Block → Option Mode
  opendir : Block → Option (List Block)
  names : ∀ dir names, opendir dir = some names →
    ∀ name ∈ names, 0 ∉ name ∧ slash ∉ name ∧ name.length ≤ NAME_MAX
  func : List Call → Int
  ret : Block → Int
  junk : UInt8

/-- `fullpath`, of `pathlen` bytes, and the calls made so far. -/
structure Walk where
  fullpath : Block
  calls : List Call
  deriving DecidableEq

inductive Stop
  | fault (f : Fault)
  | tooDeep
  deriving DecidableEq

def access {α : Type} : Except Fault α → Except Stop α := Except.mapError Stop.fault

@[simp] theorem access_ok {α : Type} (x : α) : access (.ok x) = .ok x := rfl

/-- `S_ISDIR`. -/
def isDir (mode : Mode) : Prop := mode &&& S_IFMT = S_IFDIR

instance : DecidablePred isDir := fun mode =>
  inferInstanceAs (Decidable (mode &&& S_IFMT = S_IFDIR))

/-- `.` and `..`. -/
def isDot (name : Block) : Prop := name = [46] ∨ name = [46, 46]

instance : DecidablePred isDot := fun name =>
  inferInstanceAs (Decidable (name = [46] ∨ name = [46, 46]))

namespace Walk

def path (s : Walk) : Except Stop Block := access (readString s.fullpath)

/-- A call of the callback, with its value. -/
def call (s : Walk) (sys : Sys) (c : Call) : Int × Walk :=
  (sys.func (s.calls ++ [c]), ⟨s.fullpath, s.calls ++ [c]⟩)

/-- The buffer is doubled when a longest name does not fit behind a path of `n` bytes. -/
def expand (s : Walk) (sys : Sys) (n : Nat) : Walk :=
  if n + NAME_MAX + 2 > s.fullpath.length then
    ⟨s.fullpath ++ List.replicate s.fullpath.length sys.junk, s.calls⟩
  else s

end Walk

/-- The loop over a directory whose path ends at `n`. `visit` is `dopath`. -/
def readLoop (visit : Walk → Except Stop (Int × Walk)) (n : Nat) :
    List Block → Int → Walk → Except Stop (Int × Walk)
  | [], ret, s => return (ret, s)
  | name :: names, ret, s =>
      if isDot name then readLoop visit n names ret s
      else do
        let fullpath ← access (storeRange s.fullpath n (name ++ [0]))
        let (ret, s) ← visit ⟨fullpath, s.calls⟩
        if ret ≠ 0 then return (ret, s) else readLoop visit n names ret s

/-- `dopath` behind the call for a directory: the slash, the loop over the entries, and the path
without the slash again. `visit` is `dopath`. -/
def readDirectory (sys : Sys) (visit : Walk → Except Stop (Int × Walk)) (path : Block)
    (mode : Mode) (s : Walk) : Except Stop (Int × Walk) := do
  let n := path.length
  let s := s.expand sys n
  let fullpath ← access (store s.fullpath n slash)
  let fullpath ← access (store fullpath (n + 1) 0)
  let dir ← Walk.path ⟨fullpath, s.calls⟩
  match sys.opendir dir with
  | none => return Walk.call ⟨fullpath, s.calls⟩ sys ⟨dir, some mode, .dnr⟩
  | some names => do
      let (ret, s) ← readLoop visit (n + 1) names (sys.ret path) ⟨fullpath, s.calls⟩
      let fullpath ← access (store s.fullpath n 0)
      return (ret, ⟨fullpath, s.calls⟩)

def dopath (sys : Sys) : Nat → Walk → Except Stop (Int × Walk)
  | 0, _ => .error .tooDeep
  | depth + 1, s => do
      let path ← s.path
      match sys.lstat path with
      | none => return s.call sys ⟨path, none, .ns⟩
      | some mode =>
          if ¬ isDir mode then return s.call sys ⟨path, some mode, .f⟩
          else
            let (v, s) := s.call sys ⟨path, some mode, .d⟩
            -- `ret == func(fullpath, &statbuf, FTW_D)`, with `ret` not initialised
            if sys.ret path = v then return (sys.ret path, s)
            else readDirectory sys (dopath sys depth) path mode s

/-! ## The walk without its buffer -/

/-- The loop over a directory, with paths in place of the buffer. -/
def walkLoop (visit : Block → List Call → Option (Int × List Call)) (dir : Block) :
    List Block → Int → List Call → Option (Int × List Call)
  | [], ret, calls => some (ret, calls)
  | name :: names, ret, calls =>
      if isDot name then walkLoop visit dir names ret calls
      else do
        let (ret, calls) ← visit (dir ++ name) calls
        if ret ≠ 0 then some (ret, calls) else walkLoop visit dir names ret calls

/-- `readDirectory` with paths. -/
def walkDirectory (sys : Sys) (visit : Block → List Call → Option (Int × List Call))
    (path : Block) (mode : Mode) (calls : List Call) : Option (Int × List Call) :=
  let dir := path ++ [slash]
  match sys.opendir dir with
  | none => some (sys.func (calls ++ [⟨dir, some mode, .dnr⟩]), calls ++ [⟨dir, some mode, .dnr⟩])
  | some names => walkLoop visit dir names (sys.ret path) calls

/-- What `dopath` does with the path that it finds in its buffer. -/
def walk (sys : Sys) : Nat → Block → List Call → Option (Int × List Call)
  | 0, _, _ => none
  | depth + 1, path, calls =>
      match sys.lstat path with
      | none => some (sys.func (calls ++ [⟨path, none, .ns⟩]), calls ++ [⟨path, none, .ns⟩])
      | some mode =>
          if ¬ isDir mode then
            some (sys.func (calls ++ [⟨path, some mode, .f⟩]), calls ++ [⟨path, some mode, .f⟩])
          else
            let calls := calls ++ [⟨path, some mode, .d⟩]
            if sys.ret path = sys.func calls then some (sys.ret path, calls)
            else walkDirectory sys (walk sys depth) path mode calls

/-- The buffer holds the path, and it has room for a longest name. `path_alloc` gives at least that
much, as `_POSIX_PATH_MAX` is 256. -/
structure Holds (buf path : Block) : Prop where
  plain : 0 ∉ path
  text : ∃ rest, buf = path ++ 0 :: rest
  room : NAME_MAX + 2 ≤ buf.length

/-- The buffer still begins with the path, and it has not become smaller. -/
structure Keeps (buf path buf' : Block) : Prop where
  front : ∃ rest, buf' = path ++ rest
  size : buf.length ≤ buf'.length

theorem Holds.keeps {buf path : Block} (h : Holds buf path) : Keeps buf path buf := by
  obtain ⟨rest, split⟩ := h.text
  exact ⟨⟨_, split⟩, le_rfl⟩

theorem Holds.path_eq {buf path : Block} (h : Holds buf path) (calls : List Call) :
    Walk.path ⟨buf, calls⟩ = .ok path := by
  obtain ⟨rest, rfl⟩ := h.text
  rw [Walk.path, readString_append_nul h.plain, access_ok]

/-- Doubling the buffer makes enough room. -/
theorem Holds.expand {buf path : Block} (h : Holds buf path) (sys : Sys) (calls : List Call) :
    ∃ buf', Walk.expand ⟨buf, calls⟩ sys path.length = ⟨buf', calls⟩ ∧ Holds buf' path ∧
      path.length + NAME_MAX + 2 ≤ buf'.length ∧ buf.length ≤ buf'.length := by
  obtain ⟨rest, split⟩ := h.text
  have room := h.room
  have shorter : path.length < buf.length := by
    rw [split, List.length_append, List.length_cons]
    omega
  rw [Walk.expand]
  dsimp only
  split
  · have double : (buf ++ List.replicate buf.length sys.junk).length = buf.length + buf.length := by
      simp
    refine ⟨_, rfl, ⟨h.plain, ?_, by omega⟩, by omega, by omega⟩
    exact ⟨rest ++ List.replicate buf.length sys.junk, by rw [split]; simp⟩
  · exact ⟨buf, rfl, h, by omega, le_rfl⟩

/-- The slash goes to the place of the NUL. -/
theorem Holds.addSlash {buf path : Block} (h : Holds buf path)
    (fits : path.length + NAME_MAX + 2 ≤ buf.length) :
    ∃ buf₁ buf₂, store buf path.length slash = .ok buf₁ ∧
      store buf₁ (path.length + 1) 0 = .ok buf₂ ∧ Holds buf₂ (path ++ [slash]) ∧
      buf₂.length = buf.length := by
  obtain ⟨rest, rfl⟩ := h.text
  obtain ⟨c, rest, rfl⟩ : ∃ c rest', rest = c :: rest' := by
    cases rest with
    | nil =>
        rw [List.length_append, List.length_singleton] at fits
        simp only [NAME_MAX] at fits
        omega
    | cons c rest => exact ⟨c, rest, rfl⟩
  refine ⟨path ++ slash :: c :: rest, path ++ [slash] ++ 0 :: rest,
    store_append_cons path _ 0 slash, ?_, ⟨?_, ⟨rest, rfl⟩, ?_⟩, by simp⟩
  · have split : path ++ slash :: c :: rest = (path ++ [slash]) ++ c :: rest := by simp
    exact store_of_split 0 split (by simp)
  · have nonzero : (0 : UInt8) ≠ slash := by decide
    simpa [nonzero] using h.plain
  · have := h.room
    simpa using this

/-- A name is put behind the path of its directory. -/
theorem holds_addName {buf dir name : Block} (front : ∃ rest, buf = dir ++ rest)
    (plain : 0 ∉ dir) (nonempty : dir ≠ []) (plainName : 0 ∉ name)
    (short : name.length ≤ NAME_MAX) (room : dir.length + NAME_MAX + 1 ≤ buf.length) :
    ∃ buf', storeRange buf dir.length (name ++ [0]) = .ok buf' ∧ Holds buf' (dir ++ name) ∧
      buf'.length = buf.length := by
  obtain ⟨rest, rfl⟩ := front
  have some := List.length_pos_iff.mpr nonempty
  rw [List.length_append] at room
  have fits : (name ++ [0]).length ≤ rest.length := by
    rw [List.length_append, List.length_singleton]
    omega
  have size : (dir ++ (name ++ [(0 : UInt8)]) ++ rest.drop (name ++ [0]).length).length =
      (dir ++ rest).length := by
    simp only [List.length_append, List.length_drop] at fits ⊢
    omega
  refine ⟨_, storeRange_of_split rfl rfl fits, ⟨?_, ⟨rest.drop (name ++ [0]).length, ?_⟩, ?_⟩, size⟩
  · simp [plain, plainName]
  · simp
  · rw [size, List.length_append]
    omega

/-- The loop does what the walk says if `visit` does. -/
theorem readLoop_refines {visit : Walk → Except Stop (Int × Walk)}
    {visit' : Block → List Call → Option (Int × List Call)}
    (refines : ∀ buf path calls r, visit' path calls = some r → Holds buf path →
      ∃ buf', visit ⟨buf, calls⟩ = .ok (r.1, ⟨buf', r.2⟩) ∧ Keeps buf path buf')
    {dir : Block} (plain : 0 ∉ dir) (nonempty : dir ≠ []) {names : List Block}
    (plainNames : ∀ name ∈ names, 0 ∉ name ∧ name.length ≤ NAME_MAX) {ret : Int} {buf : Block}
    {calls : List Call} {r : Int × List Call} (run : walkLoop visit' dir names ret calls = some r)
    (front : ∃ rest, buf = dir ++ rest) (room : dir.length + NAME_MAX + 1 ≤ buf.length) :
    ∃ buf', readLoop visit dir.length names ret ⟨buf, calls⟩ = .ok (r.1, ⟨buf', r.2⟩) ∧
      Keeps buf dir buf' := by
  induction names generalizing ret buf calls with
  | nil =>
      cases run
      exact ⟨buf, rfl, front, le_rfl⟩
  | cons name names ih =>
      have later : ∀ name ∈ names, 0 ∉ name ∧ name.length ≤ NAME_MAX :=
        fun other mem => plainNames other (List.mem_cons_of_mem name mem)
      rw [walkLoop] at run
      rw [readLoop]
      by_cases dot : isDot name
      · rw [if_pos dot] at run ⊢
        exact ih later run front room
      · rw [if_neg dot] at run ⊢
        obtain ⟨plainName, short⟩ := plainNames name List.mem_cons_self
        obtain ⟨⟨value, calls'⟩, child, rest⟩ := Option.bind_eq_some_iff.mp run
        obtain ⟨buf₁, stored, holds, size⟩ :=
          holds_addName front plain nonempty plainName short room
        obtain ⟨buf₂, visited, keeps⟩ := refines buf₁ _ calls _ child holds
        obtain ⟨tail, split⟩ := keeps.front
        have front' : ∃ rest, buf₂ = dir ++ rest := ⟨name ++ tail, by rw [split, List.append_assoc]⟩
        have grown : buf.length ≤ buf₂.length := size ▸ keeps.size
        simp only [stored, access_ok, ok_bind, visited]
        dsimp only at rest
        by_cases stop : value ≠ 0
        · rw [if_pos stop] at rest ⊢
          cases rest
          exact ⟨buf₂, rfl, front', grown⟩
        · rw [if_neg stop] at rest ⊢
          obtain ⟨buf₃, looped, keeps'⟩ := ih later rest front' (room.trans grown)
          exact ⟨buf₃, looped, keeps'.front, grown.trans keeps'.size⟩

/-- The part of `dopath` behind the call for a directory. -/
theorem readDirectory_refines {sys : Sys} {visit : Walk → Except Stop (Int × Walk)}
    {visit' : Block → List Call → Option (Int × List Call)}
    (refines : ∀ buf path calls r, visit' path calls = some r → Holds buf path →
      ∃ buf', visit ⟨buf, calls⟩ = .ok (r.1, ⟨buf', r.2⟩) ∧ Keeps buf path buf')
    {buf path : Block} {calls : List Call} {r : Int × List Call} (mode : Mode)
    (run : walkDirectory sys visit' path mode calls = some r) (holds : Holds buf path) :
    ∃ buf', readDirectory sys visit path mode ⟨buf, calls⟩ = .ok (r.1, ⟨buf', r.2⟩) ∧
      Keeps buf path buf' := by
  obtain ⟨buf₁, expanded, holds₁, room, grown⟩ := holds.expand sys calls
  obtain ⟨buf₂, buf₃, slashed, ended, holds₃, size⟩ := holds₁.addSlash room
  obtain ⟨rest₃, split₃⟩ := holds₃.text
  rw [walkDirectory] at run
  rw [readDirectory, expanded]
  simp only [slashed, access_ok, ok_bind, ended, holds₃.path_eq]
  cases listing : sys.opendir (path ++ [slash]) with
  | none =>
      rw [listing] at run
      cases run
      refine ⟨buf₃, rfl, ⟨_, by rw [split₃, List.append_assoc]⟩, ?_⟩
      omega
  | some names =>
      rw [listing] at run
      have plainNames : ∀ name ∈ names, 0 ∉ name ∧ name.length ≤ NAME_MAX := by
        intro name mem
        obtain ⟨plain, -, short⟩ := sys.names _ _ listing name mem
        exact ⟨plain, short⟩
      have room₃ : (path ++ [slash]).length + NAME_MAX + 1 ≤ buf₃.length := by
        rw [List.length_append, List.length_singleton]
        omega
      obtain ⟨buf₄, looped, ⟨⟨rest, split⟩, larger⟩⟩ :=
        readLoop_refines refines holds₃.plain (by simp) plainNames run ⟨_, split₃⟩ room₃
      rw [List.length_append, List.length_singleton] at looped
      have restored : store buf₄ path.length 0 = .ok (path ++ 0 :: rest) := by
        rw [split, List.append_assoc]
        exact store_append_cons path rest slash 0
      simp only [looped, ok_bind, restored, access_ok]
      refine ⟨_, rfl, ⟨_, rfl⟩, ?_⟩
      rw [split] at larger
      simp only [List.length_append, List.length_cons, List.length_nil] at larger ⊢
      omega

/-- `dopath` finds the path in its buffer and leaves it there, at the front of what it leaves. -/
theorem dopath_refines {sys : Sys} {depth : Nat} {buf path : Block} {calls : List Call}
    {r : Int × List Call} (run : walk sys depth path calls = some r) (holds : Holds buf path) :
    ∃ buf', dopath sys depth ⟨buf, calls⟩ = .ok (r.1, ⟨buf', r.2⟩) ∧ Keeps buf path buf' := by
  induction depth generalizing buf path calls r with
  | zero => cases run
  | succ depth ih =>
      rw [walk] at run
      rw [dopath, holds.path_eq, ok_bind]
      cases stat : sys.lstat path with
      | none =>
          rw [stat] at run
          cases run
          exact ⟨buf, rfl, holds.keeps⟩
      | some mode =>
          rw [stat] at run
          dsimp only at run ⊢
          by_cases dir : isDir mode
          · rw [if_neg (not_not.mpr dir)] at run ⊢
            by_cases luck : sys.ret path = sys.func (calls ++ [⟨path, some mode, .d⟩])
            · rw [if_pos luck] at run
              cases run
              exact ⟨buf, if_pos luck, holds.keeps⟩
            · rw [if_neg luck] at run
              obtain ⟨buf', below, keeps⟩ := readDirectory_refines
                (fun buf path calls r run holds => ih run holds) mode run holds
              exact ⟨buf', (if_neg luck).trans below, keeps⟩
          · rw [if_pos dir] at run ⊢
            cases run
            exact ⟨buf, rfl, holds.keeps⟩

end UnixProgramming.Ftw
