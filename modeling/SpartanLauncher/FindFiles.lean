import Mathlib.Data.List.Basic
import Mathlib.Data.Int.Basic

/-!
# The directory walk

The walker `find_files` over a directory tree: which entries it calls the visitor for, and what it
makes of the answers.
-/

namespace Spartan

/-! ## Directory trees -/

/-- The name of a directory entry. -/
structure FileName where
  chars : List Char
  nonempty : chars ≠ []
  no_slash : '/' ∉ chars
  no_nul : '\x00' ∉ chars

/-- A name given as a string. -/
def FileName.of (s : String) (h : s.toList ≠ [] ∧ '/' ∉ s.toList ∧ '\x00' ∉ s.toList := by decide) :
    FileName :=
  ⟨s.toList, h.1, h.2.1, h.2.2⟩

def FileName.isDot (name : FileName) : Bool := name.chars == ['.'] || name.chars == ['.', '.']

inductive SpecialKind where
  | fifo | chr | blk | sock
  deriving DecidableEq

/-- The type `d_type` of an entry. -/
inductive DType where
  | unknown | dir | reg | lnk
  | special (kind : SpecialKind)
  deriving DecidableEq

mutual

/-- What an entry stands for. A symbolic link comes with the node that it leads to, and it is
dangling where `stat` fails on it, so links that lead around in a circle end where `stat` gives
up. -/
inductive Node where
  | reg
  | special (kind : SpecialKind)
  | dir (canOpen : Bool) (entries : Entries)
  | lnk (target : Node)
  | dangling

/-- The entries of a directory in the order of `readdir`. It reports the type of some as unknown. -/
inductive Entries where
  | nil
  | cons (name : FileName) (isUnknown : Bool) (node : Node) (rest : Entries)

end

/-- The directory that a walk starts at. An empty path cannot be opened. -/
structure StartDir where
  path : List Char
  canOpen : Bool
  entries : Entries
  nonempty : canOpen = true → path ≠ []

/-! ## The visitor -/

inductive VisitResult where
  | continue | terminate | skipSubtree | skipSiblings
  deriving DecidableEq

inductive VisitKind where
  | postVisitDirectory | preVisitDirectory | visitFile | visitFileFailed
  deriving DecidableEq

/-- The arguments of a callback. -/
structure Event where
  filepath : List Char
  filename : List Char
  depth : ℕ
  dType : DType
  kind : VisitKind
  deriving DecidableEq

/-- The callbacks that returned, with what they returned. -/
abbrev Trace := List (Event × VisitResult)

/-- The answer may depend on everything before. There is none where the callback throws. -/
abbrev Visitor := Trace → Event → Option VisitResult

/-- A visitor whose callbacks all return. -/
def Visitor.returning (answer : Trace → Event → VisitResult) : Visitor :=
  fun t e => some (answer t e)

/-- The two places where the walk throws a `findfiles_exception`. -/
inductive FindFilesException where
  | cannotOpen (dir : List Char)
  | pathTooLong (filename : List Char)
  deriving DecidableEq

/-- What ends a walk early: an exception of its own, or one of the callback. -/
inductive WalkError where
  | exception (ex : FindFilesException)
  | thrown (event : Event)
  deriving DecidableEq

/-- A part of the walk adds its callbacks to the trace, also where it ends with an error. -/
abbrev WalkM := ExceptT WalkError (StateM Trace)

/-- The outcome of a part of the walk behind a trace. -/
def WalkM.runOn (m : WalkM α) (t : Trace) : Except WalkError α × Trace := m t

def Visitor.callback (visitor : Visitor) (e : Event) : WalkM VisitResult := do
  match visitor (← get) e with
  | none => throw (.thrown e)
  | some vr =>
    modify (· ++ [(e, vr)])
    return vr

/-! ## The walker -/

def kPathSeparator : Char := '/'

def MAXDEPTH : ℕ := 0x7FFFFFFF

/-- The size of the buffer for full paths. -/
def strbufSize : ℕ := 2048

def normalizeDepth (depth : ℤ) : ℕ := if depth ≤ 0 then 1 else depth.toNat

/-- The members of `find_files`. -/
structure FindFiles where
  separatorChar : Char := kPathSeparator
  maxdepth : ℕ := MAXDEPTH
  followLinks : Bool := false
  separatorChar_ne_nul : separatorChar ≠ '\x00' := by decide
  one_le_maxdepth : 1 ≤ maxdepth := by decide

theorem one_le_normalizeDepth (depth : ℤ) : 1 ≤ normalizeDepth depth := by
  unfold normalizeDepth
  split_ifs <;> omega

/-- The constructor that takes all members. -/
def FindFiles.make (separatorChar : Char) (maxdepth : ℤ) (followLinks : Bool)
    (h : separatorChar ≠ '\x00') : FindFiles where
  separatorChar := separatorChar
  maxdepth := normalizeDepth maxdepth
  followLinks := followLinks
  separatorChar_ne_nul := h
  one_le_maxdepth := one_le_normalizeDepth maxdepth

example : (FindFiles.make kPathSeparator 0 false (by decide)).maxdepth = 1 := rfl

namespace FindFiles

/-- The path in `strbuf` before it is cut to the size of the buffer. -/
def fullPath (ff : FindFiles) (dir : List Char) (name : FileName) : List Char :=
  if dir.getLast? = some kPathSeparator ∨ dir.getLast? = some ff.separatorChar then
    dir ++ name.chars
  else dir ++ ff.separatorChar :: name.chars

/-- The callback for an entry that has no subtree, and the `switch` on its answer. The pair is
`stop` and `skip_sibs`. -/
def report (visitor : Visitor) (skipSibs : ℕ) (e : Event) : WalkM (Bool × ℕ) := do
  match ← visitor.callback e with
  | .terminate => return (true, skipSibs)
  | .skipSiblings => return (false, e.depth)
  | _ => return (false, skipSibs)

/-- `visit_file`. -/
def visitFile (visitor : Visitor) (depth skipSibs : ℕ) (path filename : List Char)
    (dType : DType) : WalkM (Bool × ℕ) :=
  report visitor skipSibs ⟨path, filename, depth, dType, .visitFile⟩

/-- The branch of the walk in which `stat` fails. -/
def visitFileFailed (visitor : Visitor) (depth skipSibs : ℕ) (path filename : List Char)
    (dType : DType) : WalkM (Bool × ℕ) :=
  report visitor skipSibs ⟨path, filename, depth, dType, .visitFileFailed⟩

/-- `visit_dir`, where `walk` is the recursive call of `walk_file_tree`. -/
def visitDir (visitor : Visitor) (depth skipSibs : ℕ) (path filename : List Char)
    (walk : WalkM Bool) : WalkM (Bool × ℕ) := do
  match ← visitor.callback ⟨path, filename, depth, .dir, .preVisitDirectory⟩ with
  | .terminate => return (true, skipSibs)
  | .skipSubtree => return (false, skipSibs)
  | .skipSiblings => return (false, depth)
  | .continue =>
    let stop ← walk
    match ← visitor.callback ⟨path, filename, depth, .dir, .postVisitDirectory⟩ with
    | .terminate => return (true, skipSibs)
    | _ => return (stop, skipSibs)

/-- `opendir` in front of the loop. -/
def openDir (dir : List Char) (canOpen : Bool) : WalkM Unit :=
  if canOpen then pure () else throw (.exception (.cannotOpen dir))

variable (ff : FindFiles) (visitor : Visitor)

mutual

/-- The loop of `walk_file_tree(depth, dir, …)`. -/
def walkEntries (depth : ℕ) (dir : List Char) : Entries → ℕ → Bool → WalkM Bool
  | .nil, _, stop => return stop
  | .cons name isUnknown node rest, skipSibs, stop =>
    if stop then return stop
    else if depth = skipSibs ∨ name.isDot then walkEntries depth dir rest skipSibs stop
    else if strbufSize ≤ (ff.fullPath dir name).length then
      throw (.exception (.pathTooLong name.chars))
    else do
      let path := ff.fullPath dir name
      let (stop, skipSibs) ←
        (if isUnknown then visitStat depth skipSibs path name.chars .unknown node
          else visitNode depth skipSibs path name.chars node)
      walkEntries depth dir rest skipSibs stop

/-- The branches for an entry that is reported with its type. -/
def visitNode (depth skipSibs : ℕ) (path filename : List Char) : Node → WalkM (Bool × ℕ)
  | .dir canOpen entries =>
    if depth < ff.maxdepth then
      visitDir visitor depth skipSibs path filename do
        openDir path canOpen
        walkEntries (depth + 1) path entries 0 false
    else return (false, skipSibs)
  | .lnk target =>
    if ff.followLinks then visitStat depth skipSibs path filename .lnk target
    else visitFile visitor depth skipSibs path filename .lnk
  | .dangling =>
    if ff.followLinks then visitFileFailed visitor depth skipSibs path filename .lnk
    else visitFile visitor depth skipSibs path filename .lnk
  | .reg => visitFile visitor depth skipSibs path filename .reg
  | .special kind => visitFile visitor depth skipSibs path filename (.special kind)

/-- The branches behind `stat`, for an entry that `readdir` reported with the type `dType`. -/
def visitStat (depth skipSibs : ℕ) (path filename : List Char) (dType : DType) :
    Node → WalkM (Bool × ℕ)
  | .dir canOpen entries =>
    if depth < ff.maxdepth then
      visitDir visitor depth skipSibs path filename do
        openDir path canOpen
        walkEntries (depth + 1) path entries 0 false
    else return (false, skipSibs)
  | .lnk target => visitStat depth skipSibs path filename dType target
  | .dangling => visitFileFailed visitor depth skipSibs path filename dType
  | .reg => visitFile visitor depth skipSibs path filename .reg
  | .special _ => return (false, skipSibs)

end

/-- The part of the path behind the last slash. -/
def basename (path : List Char) : List Char :=
  (path.reverse.takeWhile (· ≠ kPathSeparator)).reverse

/-- The callback for the directory that the walk starts at. -/
def startEvent (start : StartDir) : Event :=
  ⟨start.path, basename start.path, 0, .dir, .preVisitDirectory⟩

/-- `walk_file_tree(start_dir, callback)`: what it returns or throws, and the callbacks. -/
def walkFileTree (start : StartDir) : Except WalkError Bool × Trace :=
  (show WalkM Bool from do
    -- the answer for the start directory is not looked at
    let _ ← visitor.callback (startEvent start)
    openDir start.path start.canOpen
    walkEntries ff visitor 1 start.path start.entries 0 false).runOn []

end FindFiles

/-- The sequence of callbacks that a walk made; the last one may have thrown. -/
def callbacks (outcome : Except WalkError Bool × Trace) : List (Event × Option VisitResult) :=
  outcome.2.map (fun c => (c.1, some c.2)) ++
    match outcome.1 with
    | .error (.thrown e) => [(e, none)]
    | _ => []

end Spartan
