import SpartanLauncher.WalkFileTree

/-!
# The visitor of a Java program

`Files.walkFileTree` hands the visitor of a Java program to `find_files`. Its callback looks at the
type of an entry, and calls a method of the visitor.

**Theorem (`walk_nested`).** In every walk, the callback finds a method to call, and the calls are
nested: only the directory that was entered last can be left. A walk that returns has left all
directories but the one it started at, which it never leaves.
-/

namespace Spartan

/-! ## Methods of the visitor -/

/-- What `BasicFileAttributes` says about the kind of a file. -/
inductive FileKind where
  | directory | regularFile | symbolicLink | other
  deriving DecidableEq

/-- `init` of the attributes. -/
def FileKind.init : DType → FileKind
  | .dir => .directory
  | .reg => .regularFile
  | .lnk => .symbolicLink
  | .unknown | .special _ => .other

/-- What `toString` and `getFileName` of a `Path` give while a method of the visitor runs. The
bridge has one such object, which `path_init` sets anew for each call. -/
structure JavaPath where
  filePath : List Char
  fileName : List Char
  deriving DecidableEq

inductive VisitorCall where
  | preVisitDirectory (dirPath : JavaPath) (attrs : FileKind)
  | visitFile (filePath : JavaPath) (attrs : FileKind)
  | visitFileFailed (filePath : JavaPath)
  | postVisitDirectory (dirPath : JavaPath)
  deriving DecidableEq

/-- The calls so far, with their results. The ordinals of `FileVisitResult` are the values of
`VisitResult`. -/
abbrev Calls := List (VisitorCall × VisitResult)

/-- A visitor whose methods all return. The result may depend on everything before, but on paths
and attributes only as they were during the calls: who keeps one of them has to copy it. -/
abbrev FileVisitor := Calls → VisitorCall → VisitResult

/-- `path_init` of the path and the name that are handed to the visitor. -/
def Event.javaPath (e : Event) : JavaPath := ⟨e.filepath, e.filename⟩

/-- The directory that a walk starts at. -/
def StartDir.javaPath (start : StartDir) : JavaPath :=
  ⟨start.path, FindFiles.basename start.path⟩

/-- The `switch` of the callback. There is no call where it asserts `false`. -/
def Event.visitorCall (e : Event) : Option VisitorCall :=
  match e.dType with
  | .dir =>
    match e.kind with
    | .postVisitDirectory => some (.postVisitDirectory e.javaPath)
    | .preVisitDirectory => some (.preVisitDirectory e.javaPath (.init e.dType))
    | _ => none
  | _ => some (.visitFile e.javaPath (.init e.dType))

/-- The calls that the callbacks of a walk come to. -/
def Trace.calls (t : Trace) : Calls :=
  t.filterMap fun c => c.1.visitorCall.map fun call => (call, c.2)

/-- The callback that is passed to `find_files`. -/
def FileVisitor.callback (v : FileVisitor) : Visitor :=
  fun t e => e.visitorCall.map (v (Trace.calls t))

theorem kPathSeparator_ne_nul : kPathSeparator ≠ '\x00' := by decide

/-- `walkFileTreeInvokeNative`: how the walk ends, and the calls. -/
def walkFileTreeInvokeNative (start : StartDir) (followLinks : Bool) (maxDepth : ℤ)
    (v : FileVisitor) : Except WalkError Bool × Calls :=
  let ff := FindFiles.make kPathSeparator maxDepth followLinks kPathSeparator_ne_nul
  let outcome := ff.walkFileTree v.callback start
  (outcome.1, Trace.calls outcome.2)

/-! ## Directories that were entered -/

/-- The directories that were entered and not left, the last one first. There is none where a
directory is left that is not the last one. -/
def Calls.enter : Option (List JavaPath) → VisitorCall × VisitResult → Option (List JavaPath)
  | none, _ => none
  | some dirs, (.preVisitDirectory d _, .continue) => some (d :: dirs)
  | some (d' :: dirs), (.postVisitDirectory d, _) => if d = d' then some dirs else none
  | some [], (.postVisitDirectory _, _) => none
  | some dirs, _ => some dirs

def Calls.entered (cs : Calls) : Option (List JavaPath) := cs.foldl Calls.enter (some [])

variable {cs : Calls} {dirs : List JavaPath} {d : JavaPath} {vr : VisitResult}

theorem entered_concat (cs : Calls) (c : VisitorCall × VisitResult) :
    Calls.entered (cs ++ [c]) = Calls.enter cs.entered c := by
  simp [Calls.entered]

theorem entered_pre (h : cs.entered = some dirs) (attrs : FileKind) :
    Calls.entered (cs ++ [(.preVisitDirectory d attrs, vr)]) =
      some (if vr = .continue then d :: dirs else dirs) := by
  rw [entered_concat, h]
  cases vr <;> cases dirs <;> rfl

theorem entered_post (h : cs.entered = some (d :: dirs)) :
    Calls.entered (cs ++ [(.postVisitDirectory d, vr)]) = some dirs := by
  rw [entered_concat, h]
  exact if_pos rfl

theorem entered_file (h : cs.entered = some dirs) (attrs : FileKind) :
    Calls.entered (cs ++ [(.visitFile d attrs, vr)]) = some dirs := by
  rw [entered_concat, h]
  cases dirs <;> rfl

/-! ## Steps of a walk -/

variable {v : FileVisitor} {t : Trace} {e : Event} {call : VisitorCall} {α β : Type}

theorem calls_concat (h : e.visitorCall = some call) (vr : VisitResult) :
    Trace.calls (t ++ [(e, vr)]) = Trace.calls t ++ [(call, vr)] := by
  simp [Trace.calls, h]

theorem callback_of_call (h : e.visitorCall = some call) :
    v.callback t e = some (v (Trace.calls t) call) := by
  simp [FileVisitor.callback, h]

theorem runOn_callback_of_call (h : e.visitorCall = some call) :
    WalkM.runOn (v.callback.callback e) t =
      (.ok (v (Trace.calls t) call), t ++ [(e, v (Trace.calls t) call)]) := by
  rw [runOn_callback, callback_of_call h]

/-- The end of a part of a walk that began in `dirs`. -/
def EndsNested (dirs : List JavaPath) : Except WalkError α × Trace → Prop
  | (.ok _, t) => (Trace.calls t).entered = some dirs
  | (.error err, t) =>
    (∃ ex, err = .exception ex) ∧ ∃ inner, (Trace.calls t).entered = some (inner ++ dirs)

/-- A part of a walk leaves what it enters, unless it ends with an exception, and no assertion
fails in it. -/
def Nested (m : WalkM α) : Prop :=
  ∀ (t : Trace) (dirs : List JavaPath), (Trace.calls t).entered = some dirs →
    EndsNested dirs (m.runOn t)

theorem nested_pure (a : α) : Nested (pure a : WalkM α) := fun _ _ h => h

theorem nested_throw (ex : FindFilesException) : Nested (throw (.exception ex) : WalkM α) :=
  fun _ _ h => ⟨⟨ex, rfl⟩, [], h⟩

theorem Nested.bind {m : WalkM α} {f : α → WalkM β} (hm : Nested m) (hf : ∀ a, Nested (f a)) :
    Nested (m >>= f) := by
  intro t dirs h
  have hmt := hm t dirs h
  rw [runOn_bind]
  rcases hrun : m.runOn t with ⟨err | a, t'⟩
  · rw [hrun] at hmt
    exact hmt
  · rw [hrun] at hmt
    exact hf a t' dirs hmt

namespace FindFiles

variable {ff : FindFiles} {path filename : List Char} {depth skipSibs : ℕ} {dType : DType}

theorem nested_openDir (dir : List Char) (canOpen : Bool) : Nested (openDir dir canOpen) := by
  cases canOpen with
  | true => exact nested_pure ()
  | false => exact nested_throw _

theorem visitorCall_file {kind : VisitKind} (h : dType ≠ .dir) :
    Event.visitorCall ⟨path, filename, depth, dType, kind⟩ =
      some (.visitFile ⟨path, filename⟩ (.init dType)) := by
  cases dType <;> first | rfl | exact absurd rfl h

/-- A callback for anything but a directory enters nothing. -/
theorem nested_report {kind : VisitKind} (h : dType ≠ .dir) :
    Nested (report v.callback skipSibs ⟨path, filename, depth, dType, kind⟩) := by
  intro t dirs hdirs
  have hcall : Event.visitorCall ⟨path, filename, depth, dType, kind⟩ = _ := visitorCall_file h
  rw [runOn_report, callback_of_call hcall]
  show (Trace.calls (t ++ [_])).entered = some dirs
  rw [calls_concat hcall]
  exact entered_file hdirs _

/-- The callbacks for a directory, by what its contents come to. -/
theorem runOn_dir (walk : WalkM Bool) (d : JavaPath) :
    WalkM.runOn (visitDir v.callback depth skipSibs d.filePath d.fileName walk) t =
      let pre := v (Trace.calls t) (.preVisitDirectory d .directory)
      let t₁ := t ++ [(⟨d.filePath, d.fileName, depth, .dir, .preVisitDirectory⟩, pre)]
      if pre = .continue then
        match walk.runOn t₁ with
        | (.ok stop, t₂) =>
          let post := v (Trace.calls t₂) (.postVisitDirectory d)
          (.ok (stop || post == .terminate, skipSibs),
            t₂ ++ [(⟨d.filePath, d.fileName, depth, .dir, .postVisitDirectory⟩, post)])
        | (.error err, t₂) => (.error err, t₂)
      else (.ok (pre == .terminate, if pre = .skipSiblings then depth else skipSibs), t₁) := by
  have hpre : Event.visitorCall ⟨d.filePath, d.fileName, depth, .dir, .preVisitDirectory⟩ =
      some (.preVisitDirectory d .directory) := rfl
  have hpost : Event.visitorCall ⟨d.filePath, d.fileName, depth, .dir, .postVisitDirectory⟩ =
      some (.postVisitDirectory d) := rfl
  unfold visitDir
  rw [runOn_bind, runOn_callback_of_call hpre]
  cases hvr : v (Trace.calls t) (.preVisitDirectory d .directory) with
  | «continue» =>
    simp only [runOn_bind, if_true]
    generalize WalkM.runOn walk _ = inside
    rcases inside with ⟨err | stop, t'⟩
    · rfl
    · simp only [runOn_callback_of_call hpost]
      cases v (Trace.calls t') (.postVisitDirectory d) <;> cases stop <;> rfl
  | terminate => rfl
  | skipSubtree => rfl
  | skipSiblings => rfl

theorem entered_preEvent (h : (Trace.calls t).entered = some dirs) (d : JavaPath) (depth : ℕ)
    (vr : VisitResult) :
    (Trace.calls (t ++ [(⟨d.filePath, d.fileName, depth, .dir, .preVisitDirectory⟩, vr)])).entered =
      some (if vr = .continue then d :: dirs else dirs) :=
  (congrArg Calls.entered (calls_concat rfl vr)).trans (entered_pre h .directory)

theorem entered_postEvent {d : JavaPath} (h : (Trace.calls t).entered = some (d :: dirs))
    (vr : VisitResult) :
    (Trace.calls
      (t ++ [(⟨d.filePath, d.fileName, depth, .dir, .postVisitDirectory⟩, vr)])).entered =
      some dirs :=
  (congrArg Calls.entered (calls_concat rfl vr)).trans (entered_post h)

theorem nested_visitDir {walk : WalkM Bool} (hwalk : Nested walk) (d : JavaPath) :
    Nested (visitDir v.callback depth skipSibs d.filePath d.fileName walk) := by
  intro t dirs hdirs
  have hpre := entered_preEvent hdirs d depth
    (v (Trace.calls t) (.preVisitDirectory d .directory))
  rw [runOn_dir]
  dsimp only
  by_cases hvr : v (Trace.calls t) (.preVisitDirectory d .directory) = .continue
  · rw [if_pos hvr] at hpre ⊢
    have hinside := hwalk _ _ hpre
    rcases hrun : walk.runOn _ with ⟨err | stop, t'⟩
    · rw [hrun] at hinside
      obtain ⟨hex, inner, hinner⟩ := hinside
      exact ⟨hex, inner ++ [d], by simpa using hinner⟩
    · rw [hrun] at hinside
      exact entered_postEvent hinside _
  · rw [if_neg hvr] at hpre ⊢
    exact hpre

mutual

theorem nested_walkEntries : ∀ (es : Entries) (dir : List Char) (depth skipSibs : ℕ) (stop : Bool),
    Nested (walkEntries ff v.callback depth dir es skipSibs stop)
  | .nil, _, _, _, stop => nested_pure stop
  | .cons name isUnknown node rest, dir, depth, skipSibs, stop => by
    rw [walkEntries_cons]
    split_ifs
    · exact nested_pure stop
    · exact nested_walkEntries rest dir depth skipSibs stop
    · exact nested_throw _
    · refine Nested.bind ?_ fun r => nested_walkEntries rest dir depth r.2 r.1
      unfold visitEntry
      split_ifs with hres
      · refine nested_visitStat node _ _ _ _ ?_
        intro hdir
        cases isUnknown <;> cases node <;> first | rfl | cases hdir
      · refine nested_report ?_
        intro hdir
        rw [hdir] at hres
        exact hres rfl

theorem nested_visitStat : ∀ (node : Node) (path filename : List Char) (depth skipSibs : ℕ)
    {dType : DType}, (dType = .dir → node.dType = .dir) →
    Nested (visitStat ff v.callback depth skipSibs path filename dType node)
  | .dir canOpen entries, path, filename, depth, skipSibs, dType, _ => by
    rw [visitStat]
    split_ifs
    · exact nested_visitDir ((nested_openDir path canOpen).bind fun _ =>
        nested_walkEntries entries path (depth + 1) 0 false) ⟨path, filename⟩
    · exact nested_pure _
  | .lnk target, path, filename, depth, skipSibs, dType, h => by
    rw [visitStat]
    refine nested_visitStat target path filename depth skipSibs ?_
    intro hdir
    cases h hdir
  | .dangling, path, filename, depth, skipSibs, dType, h => by
    rw [visitStat]
    refine nested_report ?_
    intro hdir
    cases h hdir
  | .reg, path, filename, depth, skipSibs, dType, _ => by
    rw [visitStat]
    exact nested_report (by decide)
  | .special kind, path, filename, depth, skipSibs, dType, _ => by
    rw [visitStat]
    exact nested_pure _

end

/-- The rest of a walk behind the callback for the start directory. -/
theorem runOn_start (start : StartDir) :
    ff.walkFileTree v.callback start =
      WalkM.runOn
        (do openDir start.path start.canOpen
            walkEntries ff v.callback 1 start.path start.entries 0 false)
        [(startEvent start, v [] (.preVisitDirectory start.javaPath .directory))] := by
  have hstart : Event.visitorCall (startEvent start) =
      some (.preVisitDirectory start.javaPath .directory) := rfl
  unfold walkFileTree
  rw [runOn_bind, runOn_callback_of_call hstart]
  rfl

theorem nested_walkFileTree (start : StartDir) :
    EndsNested
      (if v [] (.preVisitDirectory start.javaPath .directory) = .continue then [start.javaPath]
        else [])
      (ff.walkFileTree v.callback start) := by
  have hnil : (Trace.calls []).entered = some [] := rfl
  rw [runOn_start]
  exact (nested_openDir start.path start.canOpen).bind
    (fun _ => nested_walkEntries start.entries start.path 1 0 false) _ _
    (entered_preEvent hnil start.javaPath 0 _)

end FindFiles

/-! ## Whole walks -/

/-- **Calls are nested.** In every walk, whatever the visitor returns, no assertion of the callback
fails, and only the directory that was entered last is left. At the end of a walk that returns, the
start directory has not been left, but everything else has. -/
theorem walk_nested (start : StartDir) (followLinks : Bool) (maxDepth : ℤ) (v : FileVisitor) :
    ∃ dirs, (walkFileTreeInvokeNative start followLinks maxDepth v).2.entered = some dirs ∧
      (∀ e, (walkFileTreeInvokeNative start followLinks maxDepth v).1 ≠ .error (.thrown e)) ∧
      ∀ stop, (walkFileTreeInvokeNative start followLinks maxDepth v).1 = .ok stop →
        dirs = if v [] (.preVisitDirectory start.javaPath .directory) = .continue
          then [start.javaPath] else [] := by
  have hends : EndsNested _ ((FindFiles.make kPathSeparator maxDepth followLinks
      kPathSeparator_ne_nul).walkFileTree v.callback start) := FindFiles.nested_walkFileTree start
  unfold walkFileTreeInvokeNative
  dsimp only
  rcases hrun : FindFiles.walkFileTree _ v.callback start with ⟨err | stop, t⟩ <;>
    rw [hrun] at hends
  · obtain ⟨⟨ex, rfl⟩, inner, hinner⟩ := hends
    refine ⟨_, hinner, ?_, ?_⟩
    · intro e h
      cases h
    · intro stop h
      cases h
  · refine ⟨_, hends, ?_, ?_⟩
    · intro e h
      cases h
    · intro _ _
      rfl

end Spartan
