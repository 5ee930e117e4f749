import SpartanLauncher.FileSearch
import SpartanLauncher.VisitorBridge

/-!
# Walking like Java

`Files.walkFileTree` takes the place of `java.nio.file.Files.walkFileTree`, which it calls where
the file system is not that of POSIX.

**Theorem (`walkFileTree_alike`).** In a tree that both see alike, a visitor that does not skip the
start directory gets the same calls from both, up to the end: the native walk never leaves the
start directory, and where the visitor terminates it, it first leaves all others that it entered.

Both walks are seen through the values that a visitor finds in its arguments while it is called:
where `java.nio` makes a new `Path` each time, the native walk has the same object again.
-/

namespace Spartan

/-! ## The walk of `java.nio` -/

namespace JavaNio

/-- What a walk is made with, and the directories whose file key is that of a directory around
them. -/
structure FileTreeWalker where
  followLinks : Bool
  maxDepth : ℕ
  wouldLoop : List Char → Bool

def resolve (dir : List Char) (name : FileName) : List Char :=
  if dir.getLast? = some kPathSeparator then dir ++ name.chars
  else dir ++ kPathSeparator :: name.chars

/-- A call of the visitor. -/
def call (v : FileVisitor) (c : VisitorCall) (cs : Calls) : Calls × VisitResult :=
  (cs ++ [(c, v cs c)], v cs c)

variable (w : FileTreeWalker) (v : FileVisitor)

mutual

/-- The entries of a directory, and whether the walk is terminated in them. -/
def walkEntries (depth : ℕ) (dir : List Char) : Entries → Calls → Calls × Bool
  | .nil, cs => (cs, false)
  | .cons name _ node rest, cs =>
    if name.isDot then walkEntries depth dir rest cs
    else
      match visit depth ⟨resolve dir name, name.chars⟩ node cs with
      | (cs, .terminate) => (cs, true)
      | (cs, .skipSiblings) => (cs, false)
      | (cs, _) => walkEntries depth dir rest cs

/-- A file, and the result that its siblings depend on. -/
def visit (depth : ℕ) (path : JavaPath) : Node → Calls → Calls × VisitResult
  | .dir canOpen entries, cs =>
    if w.maxDepth ≤ depth then call v (.visitFile path .directory) cs
    else if w.followLinks && w.wouldLoop path.filePath then call v (.visitFileFailed path) cs
    else if !canOpen then call v (.visitFileFailed path) cs
    else
      match call v (.preVisitDirectory path .directory) cs with
      | (cs, .continue) =>
        match walkEntries (depth + 1) path.filePath entries cs with
        | (cs, true) => (cs, .terminate)
        | (cs, false) =>
          match call v (.postVisitDirectory path) cs with
          | (cs, .terminate) => (cs, .terminate)
          -- nothing can be skipped any more
          | (cs, _) => (cs, .continue)
      | (cs, vr) => (cs, vr)
  | .lnk target, cs =>
    if w.followLinks then visit depth path target cs
    else call v (.visitFile path .symbolicLink) cs
  -- the attributes are those of the link where it leads nowhere
  | .dangling, cs => call v (.visitFile path .symbolicLink) cs
  | .reg, cs => call v (.visitFile path .regularFile) cs
  | .special _, cs => call v (.visitFile path .other) cs

end

/-- The calls of `java.nio.file.Files.walkFileTree`, as it is documented. -/
def walkFileTree (start : StartDir) : Calls :=
  (visit w v 0 start.javaPath (.dir start.canOpen start.entries) []).1

end JavaNio

/-! ## Trees that are seen alike -/

namespace FindFiles

variable (ff : FindFiles)

mutual

/-- Paths are short enough, directories can be opened and are not too deep, and `stat` finds what
an entry is. -/
def Alike (depth : ℕ) (dir : List Char) : Entries → Prop
  | .nil => True
  | .cons name isUnknown node rest =>
    (name.isDot = false →
      (ff.fullPath dir name).length < strbufSize ∧
        (ff.resolves (node.reported isUnknown) = true →
          NodeAlike depth (ff.fullPath dir name) (node.reported isUnknown) node)) ∧
    Alike depth dir rest

/-- The conditions for an entry that is reported with the type `dType` and resolved. -/
def NodeAlike (depth : ℕ) (path : List Char) (dType : DType) : Node → Prop
  | .dir canOpen entries =>
    depth < ff.maxdepth ∧ canOpen = true ∧ Alike (depth + 1) path entries
  | .lnk target => ff.followLinks = true ∧ NodeAlike depth path dType target
  | .dangling => dType = .lnk
  | .reg => True
  | .special _ => False

end

/-- The walk of `java.nio` with the same options, where no links lead around in a circle. -/
def javaWalker : JavaNio.FileTreeWalker where
  followLinks := ff.followLinks
  maxDepth := ff.maxdepth
  wouldLoop := fun _ => false

end FindFiles

/-- The directories are left one after the other. -/
def leaveAll (v : FileVisitor) (dirs : List JavaPath) (cs : Calls) : Calls :=
  dirs.foldl (fun cs d => (JavaNio.call v (.postVisitDirectory d) cs).1) cs

/-- How two walks from `start` agree. Either the native one makes all calls but the last, which
leaves the start directory; or the visitor terminates the walk before, and the native one leaves
the other directories that it has entered. -/
def WalksAgree (v : FileVisitor) (start : JavaPath) (java : Calls)
    (native : Except WalkError Bool × Calls) : Prop :=
  (java.entered = some [] ∧ native.1 = .ok false ∧
    java = (JavaNio.call v (.postVisitDirectory start) native.2).1) ∨
  ∃ inner, java.entered = some (inner ++ [start]) ∧ native = (.ok true, leaveAll v inner java)

/-! ## Simulation -/

open JavaNio (call)

variable {v : FileVisitor} {t : Trace} {cs : Calls} {dirs : List JavaPath}

theorem leaveAll_concat (inner : List JavaPath) (d : JavaPath) (cs : Calls) :
    leaveAll v (inner ++ [d]) cs =
      (call v (.postVisitDirectory d) (leaveAll v inner cs)).1 := by
  simp [leaveAll]

/-- The native walk has caught up with the other one: it has made the same calls, and has left
what was entered inside of `dirs` if the visitor has terminated the walk there. -/
def CaughtUp (v : FileVisitor) (dirs : List JavaPath) (java : Calls) (terminated : Bool)
    (native : Calls) : Prop :=
  ∃ inner, java.entered = some (inner ++ dirs) ∧ native = leaveAll v inner java ∧
    (terminated = false → inner = [])

theorem caughtUp_of_eq (h : cs.entered = some dirs) (terminated : Bool) :
    CaughtUp v dirs cs terminated cs :=
  ⟨[], h, rfl, fun _ => rfl⟩

namespace FindFiles

variable {ff : FindFiles} {depth skipSibs : ℕ} {dType : DType} {path : JavaPath}

/-- An entry comes to the same in both walks. -/
def EntryAgrees (v : FileVisitor) (depth skipSibs : ℕ) (dirs : List JavaPath)
    (native : Except WalkError (Bool × ℕ) × Trace) (java : Calls × VisitResult) : Prop :=
  ∃ t, native =
      (.ok (java.2 == .terminate, if java.2 = .skipSiblings then depth else skipSibs), t) ∧
    CaughtUp v dirs java.1 (java.2 == .terminate) (Trace.calls t)

/-- The contents of a directory come to the same in both walks. -/
def ContentsAgree (v : FileVisitor) (dirs : List JavaPath)
    (native : Except WalkError Bool × Trace) (java : Calls × Bool) : Prop :=
  ∃ t, native = (.ok java.2, t) ∧ CaughtUp v dirs java.1 java.2 (Trace.calls t)

theorem fullPath_eq_resolve (hsep : ff.separatorChar = kPathSeparator) (dir : List Char)
    (name : FileName) : ff.fullPath dir name = JavaNio.resolve dir name := by
  simp only [fullPath, JavaNio.resolve, hsep, or_self]

theorem entryAgrees_file {kind : VisitKind} (hdirs : (Trace.calls t).entered = some dirs)
    (hdType : dType ≠ .dir) :
    EntryAgrees v depth skipSibs dirs
      (WalkM.runOn
        (report v.callback skipSibs ⟨path.filePath, path.fileName, depth, dType, kind⟩) t)
      (call v (.visitFile path (.init dType)) (Trace.calls t)) := by
  have hcall : Event.visitorCall ⟨path.filePath, path.fileName, depth, dType, kind⟩ = _ :=
    visitorCall_file hdType
  refine ⟨_, by rw [runOn_report, callback_of_call hcall]; rfl, ?_⟩
  rw [calls_concat hcall]
  exact caughtUp_of_eq (entered_file hdirs _) _

/-- The calls for a directory that can be entered, by what its contents come to. -/
theorem visit_dir (hdepth : depth < ff.maxdepth) (entries : Entries) (cs : Calls) :
    JavaNio.visit ff.javaWalker v depth path (.dir true entries) cs =
      let pre := call v (.preVisitDirectory path .directory) cs
      if pre.2 = .continue then
        let inside := JavaNio.walkEntries ff.javaWalker v (depth + 1) path.filePath entries pre.1
        if inside.2 then (inside.1, .terminate)
        else
          let post := call v (.postVisitDirectory path) inside.1
          (post.1, if post.2 = .terminate then .terminate else .continue)
      else pre := by
  have hmax : ¬ff.javaWalker.maxDepth ≤ depth := not_le_of_gt hdepth
  have hloop : (ff.javaWalker.followLinks && ff.javaWalker.wouldLoop path.filePath) = false :=
    Bool.and_false _
  rw [JavaNio.visit, if_neg hmax, hloop]
  rcases call v (.preVisitDirectory path .directory) cs with ⟨cs₁, pre⟩
  cases pre with
  | «continue» =>
    simp only [Bool.not_true, Bool.false_eq_true, if_false, if_true]
    rcases JavaNio.walkEntries ff.javaWalker v (depth + 1) path.filePath entries cs₁
      with ⟨cs₂, _ | _⟩
    · dsimp only
      rcases call v (.postVisitDirectory path) cs₂ with ⟨cs₃, _ | _ | _ | _⟩ <;> rfl
    · rfl
  | terminate => rfl
  | skipSubtree => rfl
  | skipSiblings => rfl

theorem calls_preEvent (v : FileVisitor) (t : Trace) (d : JavaPath) (depth : ℕ) :
    Trace.calls (t ++ [(⟨d.filePath, d.fileName, depth, .dir, .preVisitDirectory⟩,
      v (Trace.calls t) (.preVisitDirectory d .directory))]) =
      (call v (.preVisitDirectory d .directory) (Trace.calls t)).1 :=
  calls_concat rfl _

theorem calls_postEvent (v : FileVisitor) (t : Trace) (d : JavaPath) (depth : ℕ) :
    Trace.calls (t ++ [(⟨d.filePath, d.fileName, depth, .dir, .postVisitDirectory⟩,
      v (Trace.calls t) (.postVisitDirectory d))]) =
      (call v (.postVisitDirectory d) (Trace.calls t)).1 :=
  calls_concat rfl _

/-- Once its contents have come to the same, a directory does. -/
theorem entryAgrees_left {inside : Calls × Bool} {java : Calls × VisitResult}
    (hcaught : CaughtUp v (path :: dirs) inside.1 inside.2 (Trace.calls t))
    (hjava : java = if inside.2 then (inside.1, .terminate)
      else
        let post := call v (.postVisitDirectory path) inside.1
        (post.1, if post.2 = .terminate then .terminate else .continue)) :
    EntryAgrees v depth skipSibs dirs
      (.ok (inside.2 || v (Trace.calls t) (.postVisitDirectory path) == .terminate, skipSibs),
        t ++ [(⟨path.filePath, path.fileName, depth, .dir, .postVisitDirectory⟩,
          v (Trace.calls t) (.postVisitDirectory path))])
      java := by
  obtain ⟨inner, hinner, hnative, hend⟩ := hcaught
  have hcalls := calls_postEvent v t path depth
  rcases inside with ⟨cs', _ | _⟩
  · obtain rfl := hend rfl
    have hsame : Trace.calls t = cs' := hnative
    subst hjava
    refine ⟨t ++ [(⟨path.filePath, path.fileName, depth, .dir, .postVisitDirectory⟩,
      v (Trace.calls t) (.postVisitDirectory path))], Prod.ext ?_ rfl, ?_⟩
    · rw [hsame]
      by_cases hpost : v cs' (.postVisitDirectory path) = .terminate <;> simp [call, hpost]
    · rw [hcalls, hsame]
      exact caughtUp_of_eq (entered_post hinner) _
  · -- the visitor has terminated the walk inside, and the native walk still leaves this directory
    subst hjava
    refine ⟨_, rfl, inner ++ [path], ?_, ?_, ?_⟩
    · simpa using hinner
    · rw [leaveAll_concat]
      exact hcalls.trans
        (congrArg (fun cs => (call v (.postVisitDirectory path) cs).1) hnative)
    · intro h
      cases h

theorem entryAgrees_dir {walk : WalkM Bool} {entries : Entries}
    (hdirs : (Trace.calls t).entered = some dirs) (hdepth : depth < ff.maxdepth)
    (hwalk : ∀ t, (Trace.calls t).entered = some (path :: dirs) →
      ContentsAgree v (path :: dirs) (walk.runOn t)
        (JavaNio.walkEntries ff.javaWalker v (depth + 1) path.filePath entries (Trace.calls t))) :
    EntryAgrees v depth skipSibs dirs
      (WalkM.runOn (visitDir v.callback depth skipSibs path.filePath path.fileName walk) t)
      (JavaNio.visit ff.javaWalker v depth path (.dir true entries) (Trace.calls t)) := by
  have hpre := entered_preEvent hdirs path depth
    (v (Trace.calls t) (.preVisitDirectory path .directory))
  have hcalls := calls_preEvent v t path depth
  rw [runOn_dir, visit_dir hdepth]
  dsimp only
  by_cases hvr : v (Trace.calls t) (.preVisitDirectory path .directory) = .continue
  · have hjava : (call v (.preVisitDirectory path .directory) (Trace.calls t)).2 = .continue := hvr
    rw [if_pos hvr] at hpre
    obtain ⟨t', hrun, hcaught⟩ := hwalk _ hpre
    rw [hcalls] at hrun hcaught
    rw [if_pos hvr, hrun, if_pos hjava]
    exact entryAgrees_left hcaught rfl
  · have hjava : ¬(call v (.preVisitDirectory path .directory) (Trace.calls t)).2 = .continue :=
      hvr
    rw [if_neg hvr] at hpre
    rw [if_neg hvr, if_neg hjava]
    refine ⟨_, rfl, ?_⟩
    rw [hcalls] at hpre ⊢
    exact caughtUp_of_eq hpre _

/-- An entry that is not resolved is a file for both walks. -/
theorem entryAgrees_visitEntry {isUnknown : Bool} {node : Node}
    (hdirs : (Trace.calls t).entered = some dirs)
    (hnode : ff.resolves (node.reported isUnknown) = true →
      EntryAgrees v depth skipSibs dirs
        (WalkM.runOn (visitStat ff v.callback depth skipSibs path.filePath path.fileName
          (node.reported isUnknown) node) t)
        (JavaNio.visit ff.javaWalker v depth path node (Trace.calls t))) :
    EntryAgrees v depth skipSibs dirs
      (WalkM.runOn
        (visitEntry ff v.callback depth skipSibs path.filePath path.fileName isUnknown node) t)
      (JavaNio.visit ff.javaWalker v depth path node (Trace.calls t)) := by
  unfold visitEntry
  by_cases hres : ff.resolves (node.reported isUnknown) = true
  · rw [if_pos hres]
    exact hnode hres
  rw [if_neg hres]
  cases isUnknown with
  | true => exact absurd rfl hres
  | false =>
    cases node with
    | reg => exact absurd rfl hres
    | dir canOpen entries => exact absurd rfl hres
    | special kind =>
      rw [JavaNio.visit]
      exact entryAgrees_file hdirs nofun
    | lnk target =>
      have hlinks : ¬ff.javaWalker.followLinks = true := hres
      rw [JavaNio.visit, if_neg hlinks]
      exact entryAgrees_file hdirs nofun
    | dangling =>
      rw [JavaNio.visit]
      exact entryAgrees_file hdirs nofun

/-- Where the walk goes on, the native walk has made the same calls. -/
theorem CaughtUp.eq {java : Calls} (h : CaughtUp v dirs java false cs) :
    java = cs ∧ cs.entered = some dirs := by
  obtain ⟨inner, hinner, hnative, hend⟩ := h
  obtain rfl := hend rfl
  obtain rfl : cs = java := hnative
  exact ⟨rfl, hinner⟩

mutual

/-- **The simulation.** -/
theorem contentsAgree (hsep : ff.separatorChar = kPathSeparator) : ∀ (es : Entries)
    {dir : List Char} {depth skipSibs : ℕ} {t : Trace} {dirs : List JavaPath},
    (Trace.calls t).entered = some dirs → ff.Alike depth dir es → skipSibs ≠ depth →
    ContentsAgree v dirs (WalkM.runOn (walkEntries ff v.callback depth dir es skipSibs false) t)
      (JavaNio.walkEntries ff.javaWalker v depth dir es (Trace.calls t))
  | .nil, dir, depth, skipSibs, t, dirs, hdirs, _, _ => by
    rw [walkEntries, JavaNio.walkEntries]
    exact ⟨t, rfl, caughtUp_of_eq hdirs _⟩
  | .cons name isUnknown node rest, dir, depth, skipSibs, t, dirs, hdirs, halike, hskip => by
    rw [Alike] at halike
    rw [walkEntries_cons, JavaNio.walkEntries, if_neg Bool.false_ne_true]
    by_cases hdot : name.isDot = true
    · rw [if_pos (.inr hdot), if_pos hdot]
      exact contentsAgree hsep rest hdirs halike.2 hskip
    obtain ⟨hshort, hnode⟩ := halike.1 (Bool.eq_false_iff.2 hdot)
    rw [if_neg (not_or.2 ⟨hskip.symm, hdot⟩), if_neg hdot, if_neg (not_le_of_gt hshort), runOn_bind]
    rw [fullPath_eq_resolve hsep] at hnode ⊢
    obtain ⟨t', hrun, hcaught⟩ := entryAgrees_visitEntry hdirs fun hres =>
      entryAgrees hsep node ⟨JavaNio.resolve dir name, name.chars⟩ skipSibs hdirs (hnode hres)
    dsimp only at hrun
    rw [hrun]
    rcases hjava : JavaNio.visit ff.javaWalker v depth ⟨JavaNio.resolve dir name, name.chars⟩ node
      (Trace.calls t) with ⟨cs, vr⟩
    rw [hjava] at hcaught
    cases vr with
    -- neither walk calls the visitor for the rest of the directory
    | terminate =>
      refine ⟨t', ?_, hcaught⟩
      show WalkM.runOn (walkEntries ff v.callback depth dir rest skipSibs true) t' = _
      rw [walkEntries_of_stop]
      rfl
    | skipSiblings =>
      refine ⟨t', ?_, hcaught⟩
      show WalkM.runOn (walkEntries ff v.callback depth dir rest depth false) t' = _
      rw [walkEntries_of_skip]
      rfl
    | «continue» =>
      obtain ⟨rfl, hgoes⟩ := CaughtUp.eq hcaught
      exact contentsAgree hsep rest hgoes halike.2 hskip
    | skipSubtree =>
      obtain ⟨rfl, hgoes⟩ := CaughtUp.eq hcaught
      exact contentsAgree hsep rest hgoes halike.2 hskip

theorem entryAgrees (hsep : ff.separatorChar = kPathSeparator) : ∀ (node : Node)
    (path : JavaPath) (skipSibs : ℕ) {depth : ℕ} {dType : DType} {t : Trace}
    {dirs : List JavaPath},
    (Trace.calls t).entered = some dirs → ff.NodeAlike depth path.filePath dType node →
    EntryAgrees v depth skipSibs dirs
      (WalkM.runOn
        (visitStat ff v.callback depth skipSibs path.filePath path.fileName dType node) t)
      (JavaNio.visit ff.javaWalker v depth path node (Trace.calls t))
  | .dir canOpen entries, path, skipSibs, depth, dType, t, dirs, hdirs, halike => by
    rw [NodeAlike] at halike
    obtain ⟨hdepth, rfl, hentries⟩ := halike
    rw [visitStat, if_pos hdepth]
    exact entryAgrees_dir hdirs hdepth fun t hdirs =>
      contentsAgree hsep entries hdirs hentries (Nat.succ_ne_zero depth).symm
  | .lnk target, path, skipSibs, depth, dType, t, dirs, hdirs, halike => by
    rw [NodeAlike] at halike
    have hlinks : ff.javaWalker.followLinks = true := halike.1
    rw [visitStat, JavaNio.visit, if_pos hlinks]
    exact entryAgrees hsep target path skipSibs hdirs halike.2
  | .dangling, path, skipSibs, depth, dType, t, dirs, hdirs, halike => by
    rw [NodeAlike] at halike
    rw [visitStat, JavaNio.visit, halike]
    exact entryAgrees_file hdirs (by decide)
  | .reg, path, skipSibs, depth, dType, t, dirs, hdirs, _ => by
    rw [visitStat, JavaNio.visit]
    exact entryAgrees_file hdirs (by decide)
  | .special _, path, skipSibs, depth, dType, t, dirs, hdirs, halike => by
    rw [NodeAlike] at halike
    exact halike.elim

end

/-! ## Whole walks -/

theorem walksAgree_of_caughtUp {start : JavaPath} {inside : Calls × Bool} {native : Calls}
    (hcaught : CaughtUp v [start] inside.1 inside.2 native) :
    WalksAgree v start
      (if inside.2 then inside.1 else (call v (.postVisitDirectory start) inside.1).1)
      (.ok inside.2, native) := by
  rcases inside with ⟨cs', _ | _⟩
  · obtain ⟨rfl, hentered⟩ := CaughtUp.eq hcaught
    exact .inl ⟨entered_post hentered, rfl, rfl⟩
  · obtain ⟨inner, hinner, hnative, -⟩ := hcaught
    exact .inr ⟨inner, hinner, congrArg _ hnative⟩

theorem walksAgree {start : StartDir} (hsep : ff.separatorChar = kPathSeparator)
    (hopen : start.canOpen = true) (halike : ff.Alike 1 start.path start.entries)
    (hcontinue : v [] (.preVisitDirectory start.javaPath .directory) = .continue) :
    WalksAgree v start.javaPath (JavaNio.walkFileTree ff.javaWalker v start)
      ((ff.walkFileTree v.callback start).1,
        Trace.calls (ff.walkFileTree v.callback start).2) := by
  have hnil : (Trace.calls []).entered = some [] := rfl
  have hentered := entered_preEvent hnil start.javaPath 0 .continue
  have hfirst : (call v (.preVisitDirectory start.javaPath .directory) []).2 = .continue :=
    hcontinue
  have hcalls : Trace.calls ([] ++ [(⟨start.path, basename start.path, 0, .dir,
      .preVisitDirectory⟩, .continue)]) =
      (call v (.preVisitDirectory start.javaPath .directory) []).1 := by
    simp only [call, hcontinue]
    rfl
  obtain ⟨t, hrun, hcaught⟩ :=
    contentsAgree (v := v) hsep start.entries hentered halike Nat.zero_ne_one
  have hnative : ff.walkFileTree v.callback start = _ := runOn_start start
  rw [hopen, hcontinue] at hnative
  have hjava : JavaNio.walkFileTree ff.javaWalker v start =
      (JavaNio.visit ff.javaWalker v 0 start.javaPath (.dir true start.entries) []).1 := by
    unfold JavaNio.walkFileTree
    rw [hopen]
  rw [hnative.trans hrun, hjava, visit_dir ff.one_le_maxdepth]
  dsimp only
  rw [if_pos hfirst, ← hcalls, apply_ite Prod.fst]
  exact walksAgree_of_caughtUp hcaught

end FindFiles

namespace FindFiles

variable {ff : FindFiles}

mutual

/-- Links that are not followed do not matter, and the nesting is no deeper than the paths are
long. -/
theorem alike_of_trueTypes (hlinks : ff.followLinks = false) (hmax : strbufSize ≤ ff.maxdepth) :
    ∀ (es : Entries) {depth : ℕ} {dir : List Char}, depth ≤ dir.length →
    ff.EachEntry (fun _ _ node => ff.opens node = true) dir es →
    ff.EachEntry (fun path _ _ => path.length < strbufSize) dir es →
    ff.EachEntry (fun _ isUnknown _ => isUnknown = false) dir es → ff.Alike depth dir es
  | .nil, depth, dir, _, _, _, _ => by
    rw [Alike]
    trivial
  | .cons name isUnknown node rest, depth, dir, hdepth, hopen, hshort, htypes => by
    rw [EachEntry] at hopen hshort htypes
    rw [Alike]
    refine ⟨?_, alike_of_trueTypes hlinks hmax rest hdepth hopen.2 hshort.2 htypes.2⟩
    intro hdot
    have hlonger := lt_length_fullPath ff dir name
    obtain rfl := (htypes.1 hdot).1
    refine ⟨(hshort.1 hdot).1, ?_⟩
    intro hres
    exact nodeAlike_of_trueTypes hlinks hmax node (by omega) (hshort.1 hdot).1 hres
      (hopen.1 hdot).1 (hopen.1 hdot).2 (hshort.1 hdot).2 (htypes.1 hdot).2

theorem nodeAlike_of_trueTypes (hlinks : ff.followLinks = false)
    (hmax : strbufSize ≤ ff.maxdepth) : ∀ (node : Node) {depth : ℕ} {path : List Char},
    depth < path.length → path.length < strbufSize → ff.resolves (node.reported false) = true →
    ff.opens node = true →
    ff.EachBelow (fun _ _ node => ff.opens node = true) path node →
    ff.EachBelow (fun path _ _ => path.length < strbufSize) path node →
    ff.EachBelow (fun _ isUnknown _ => isUnknown = false) path node →
    ff.NodeAlike depth path (node.reported false) node
  | .dir canOpen entries, depth, path, hdepth, hpath, _, hnode, hopen, hshort, htypes => by
    rw [EachBelow] at hopen hshort htypes
    rw [NodeAlike]
    exact ⟨by omega, hnode, alike_of_trueTypes hlinks hmax entries hdepth hopen hshort htypes⟩
  | .lnk _, depth, path, _, _, hres, _, _, _, _ => by
    rw [show ff.resolves ((Node.lnk _).reported false) = ff.followLinks from rfl, hlinks] at hres
    cases hres
  | .dangling, depth, path, _, _, _, _, _, _, _ => by
    rw [NodeAlike]
    rfl
  | .reg, depth, path, _, _, _, _, _, _, _ => by
    rw [NodeAlike]
    trivial
  | .special _, depth, path, _, _, hres, _, _, _, _ => by cases hres

end

end FindFiles

/-- `Files.walkFileTree` without options, where each directory can be opened and all types are
reported. -/
theorem walkFileTree_default {start : StartDir} {v : FileVisitor}
    (hopen : FindFiles.AllOpen {} start) (hshort : FindFiles.ShortPaths {} start)
    (htypes : FindFiles.TrueTypes {} start)
    (hcontinue : v [] (.preVisitDirectory start.javaPath .directory) = .continue) :
    WalksAgree v start.javaPath (JavaNio.walkFileTree ⟨false, MAXDEPTH, fun _ => false⟩ v start)
      (walkFileTreeInvokeNative start false MAXDEPTH v) := by
  have hpath : 1 ≤ start.path.length := List.length_pos_of_ne_nil (start.nonempty hopen.1)
  have hmake : FindFiles.make kPathSeparator MAXDEPTH false kPathSeparator_ne_nul = {} := by
    simp [FindFiles.make, normalizeDepth, MAXDEPTH]
  unfold walkFileTreeInvokeNative
  rw [hmake]
  exact FindFiles.walksAgree rfl hopen.1
    (FindFiles.alike_of_trueTypes rfl (by decide) start.entries hpath hopen.2 hshort htypes)
    hcontinue

/-! ## A visitor that stops inside -/

/-- The file `/srv/logs/today`. -/
def nestedFile : StartDir where
  path := "/srv".toList
  canOpen := true
  entries := .cons (.of "logs") false (.dir true (.cons (.of "today") false .reg .nil)) .nil
  nonempty := by decide

def stopAtFile : FileVisitor := fun _ c =>
  match c with
  | .visitFile _ _ => .terminate
  | _ => .continue

end Spartan
