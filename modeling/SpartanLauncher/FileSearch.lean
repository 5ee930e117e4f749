import SpartanLauncher.WalkFileTree

/-!
# The search for a file

`findfiles` walks a tree with links followed, and evaluates a predicate on each regular file. It
throws when it is called for anything that is neither a directory nor a regular file.

**Theorem (`findsFile_iff`).** In a tree in which every directory can be opened and every path is
short, the search finds a file that satisfies the predicate if there is one, just when no pipe,
socket, device or dangling link is reported in front of the first such file.
-/

namespace Spartan

open Pruning

/-! ## The search -/

/-- The predicate of a search, on the path and the name of a file. -/
abbrev FilePred := List Char → List Char → Bool

/-- The callback that `findfiles` passes. -/
def searchVisitor (pred : FilePred) : Visitor := fun _ e =>
  match e.dType with
  | .dir => some .continue
  | .reg => some (if pred e.filepath e.filename then .terminate else .continue)
  | _ => none

/-- The walker that `findfiles` creates. -/
def searchWalker : FindFiles := { followLinks := true }

def findfiles (start : StartDir) (pred : FilePred) : Except WalkError Bool × Trace :=
  searchWalker.walkFileTree (searchVisitor pred) start

namespace FindFiles

variable (ff : FindFiles)

mutual

/-- The regular files that are reachable, links followed, with their paths and names. -/
def regularFiles (dir : List Char) : Entries → List (List Char × List Char)
  | .nil => []
  | .cons name _ node rest =>
    (if name.isDot then [] else nodeFiles (ff.fullPath dir name) name.chars node) ++
    regularFiles dir rest

def nodeFiles (path filename : List Char) : Node → List (List Char × List Char)
  | .reg => [(path, filename)]
  | .dir _ entries => regularFiles path entries
  | .lnk target => nodeFiles path filename target
  | .dangling | .special _ => []

end

end FindFiles

/-- The files on which the predicate is evaluated. -/
def evaluations (trace : Trace) : List Event :=
  (trace.map Prod.fst).filter fun e => e.dType == .reg

/-- The search returns, and says whether there is a file that satisfies the predicate, which is not
evaluated again behind the first one. -/
def FindsFile (start : StartDir) (pred : FilePred) : Prop :=
  ∃ found trace, findfiles start pred = (.ok found, trace) ∧
    (found = true ↔
      ∃ file ∈ searchWalker.regularFiles start.path start.entries, pred file.1 file.2 = true) ∧
    ∀ pre e post, evaluations trace = pre ++ e :: post →
      pred e.filepath e.filename = true → post = []

/-- A report that the search does not expect. -/
def Item.isOdd (x : Item) : Bool :=
  match x.happening with
  | .visit e => e.dType != .dir && e.dType != .reg
  | .fault _ => false

/-- A regular file that satisfies the predicate. -/
def Item.isMatch (pred : FilePred) (x : Item) : Bool :=
  match x.happening with
  | .visit e => e.dType == .reg && pred e.filepath e.filename
  | .fault _ => false

/-- In depth-first order, all that the search does not expect comes behind a match. -/
def OddBehindMatch (start : StartDir) (pred : FilePred) : Prop :=
  ∀ l₁ x l₂, searchWalker.startListing start = l₁ ++ x :: l₂ → x.isOdd = true →
    ∃ y ∈ l₁, y.isMatch pred = true

/-! ## The listing of a search -/

namespace FindFiles

variable {ff : FindFiles}

mutual

/-- Where everything can be opened and every path is short, the listing has no errors. -/
theorem visit_of_mem_listing (hlinks : ff.followLinks = true) : ∀ (es : Entries) {x : Item}
    {dir : List Char} {pos : List ℕ} {i : ℕ},
    ff.EachEntry (fun _ _ node => ff.opens node = true) dir es →
    ff.EachEntry (fun path _ _ => path.length < strbufSize) dir es →
    x ∈ ff.listing dir pos es i → ∃ e, x.happening = .visit e ∧ (x.isPost = true → e.dType = .dir)
  | .nil, _, _, _, _, _, _, h => by
    rw [listing] at h
    cases h
  | .cons name isUnknown node rest, x, dir, pos, i, hopen, hshort, h => by
    rw [EachEntry] at hopen hshort
    rw [listing_cons, List.mem_append] at h
    rcases h with h | h
    · split_ifs at h with hdot hlen
      · cases h
      · exact absurd (hshort.1 (Bool.eq_false_iff.2 hdot)).1 (not_lt_of_ge hlen)
      · obtain ⟨hnode, hopen⟩ := hopen.1 (Bool.eq_false_iff.2 hdot)
        unfold entryItems at h
        split_ifs at h
        · exact visit_of_mem_nodeItems hlinks node hnode hopen
            (hshort.1 (Bool.eq_false_iff.2 hdot)).2 h
        · rw [List.mem_singleton.1 h]
          exact ⟨_, rfl, by simp⟩
    · exact visit_of_mem_listing hlinks rest hopen.2 hshort.2 h

theorem visit_of_mem_nodeItems (hlinks : ff.followLinks = true) : ∀ (node : Node) {x : Item}
    {pos : List ℕ} {path filename : List Char} {dType : DType}, ff.opens node = true →
    ff.EachBelow (fun _ _ node => ff.opens node = true) path node →
    ff.EachBelow (fun path _ _ => path.length < strbufSize) path node →
    x ∈ ff.nodeItems pos path filename dType node →
    ∃ e, x.happening = .visit e ∧ (x.isPost = true → e.dType = .dir)
  | .dir canOpen entries, x, pos, path, filename, dType, hnode, hopen, hshort, h => by
    rw [EachBelow] at hopen hshort
    rw [opens] at hnode
    rw [nodeItems] at h
    split_ifs at h
    · rcases mem_dirItems_iff.1 h with rfl | h | rfl
      · exact ⟨_, rfl, fun _ => rfl⟩
      · rw [openItems, if_pos hnode] at h
        exact visit_of_mem_listing hlinks entries hopen hshort h
      · exact ⟨_, rfl, fun _ => rfl⟩
    · cases h
  | .lnk target, x, pos, path, filename, dType, hnode, hopen, hshort, h => by
    rw [EachBelow] at hopen hshort
    have htarget : ff.opens target = true := by simpa [opens, hlinks] using hnode
    rw [nodeItems] at h
    exact visit_of_mem_nodeItems hlinks target htarget (hopen hlinks) (hshort hlinks) h
  | .dangling, x, pos, path, filename, dType, _, _, _, h => by
    rw [nodeItems] at h
    rw [List.mem_singleton.1 h]
    exact ⟨_, rfl, by simp⟩
  | .reg, x, pos, path, filename, dType, _, _, _, h => by
    rw [nodeItems] at h
    rw [List.mem_singleton.1 h]
    exact ⟨_, rfl, by simp⟩
  | .special _, x, pos, path, filename, dType, _, _, _, h => by
    rw [nodeItems] at h
    cases h

end

/-- The regular file that is reported. -/
def fileOf (x : Item) : Option (List Char × List Char) :=
  match x.happening with
  | .visit e => if e.dType = .reg then some (e.filepath, e.filename) else none
  | .fault _ => none

theorem lt_length_fullPath (ff : FindFiles) (dir : List Char) (name : FileName) :
    dir.length < (ff.fullPath dir name).length := by
  have hname := List.length_pos_of_ne_nil name.nonempty
  unfold fullPath
  split_ifs
  · simp
    omega
  · simp

mutual

/-- **The regular files of a listing** are those that are reachable, in the same order. The
nesting is no deeper than the paths are long, so the walk goes all the way down. -/
theorem files_listing : ∀ (es : Entries) {dir : List Char} {pos : List ℕ} {i : ℕ},
    pos.length < dir.length →
    searchWalker.EachEntry (fun _ _ node => searchWalker.opens node = true) dir es →
    searchWalker.EachEntry (fun path _ _ => path.length < strbufSize) dir es →
    (searchWalker.listing dir pos es i).filterMap fileOf = searchWalker.regularFiles dir es
  | .nil, _, _, _, _, _, _ => by rw [listing, regularFiles, List.filterMap_nil]
  | .cons name isUnknown node rest, dir, pos, i, hlen, hopen, hshort => by
    rw [EachEntry] at hopen hshort
    rw [listing_cons, regularFiles, List.filterMap_append, files_listing rest hlen hopen.2 hshort.2]
    congr 1
    cases hdot : name.isDot with
    | true => rfl
    | false =>
      have hpath : (pos ++ [i]).length < (searchWalker.fullPath dir name).length := by
        have hlt := lt_length_fullPath searchWalker dir name
        simp
        omega
      rw [if_neg Bool.false_ne_true, if_neg Bool.false_ne_true,
        if_neg (not_le_of_gt (hshort.1 hdot).1), entryItems]
      split_ifs with hres
      · refine files_nodeItems node ?_ hpath (hshort.1 hdot).1 (hopen.1 hdot).1 (hopen.1 hdot).2
          (hshort.1 hdot).2
        intro hreg
        cases isUnknown <;> cases node <;> first | rfl | cases hreg
      · cases isUnknown <;> cases node <;> first | rfl | exact absurd rfl hres

theorem files_nodeItems : ∀ (node : Node) {pos : List ℕ} {path filename : List Char}
    {dType : DType}, (dType = .reg → node = .reg) → pos.length < path.length →
    path.length < strbufSize → searchWalker.opens node = true →
    searchWalker.EachBelow (fun _ _ node => searchWalker.opens node = true) path node →
    searchWalker.EachBelow (fun path _ _ => path.length < strbufSize) path node →
    (searchWalker.nodeItems pos path filename dType node).filterMap fileOf =
      searchWalker.nodeFiles path filename node
  | .dir canOpen entries, pos, path, filename, dType, hd, hpos, hpath, hnode, hopen, hshort => by
    rw [EachBelow] at hopen hshort
    rw [opens] at hnode
    have hdepth : pos.length < searchWalker.maxdepth := by
      have hmax : strbufSize ≤ searchWalker.maxdepth := by decide
      omega
    have hpre : fileOf (preItem pos path filename) = none := rfl
    have hpost : fileOf (postItem pos path filename) = none := rfl
    rw [nodeItems, if_pos hdepth, nodeFiles, ← @files_listing entries _ pos 0 hpos hopen hshort,
      dirItems, openItems, if_pos hnode, List.filterMap_cons_none hpre, List.filterMap_append,
      List.filterMap_cons_none hpost, List.filterMap_nil, List.append_nil]
  | .lnk target, pos, path, filename, dType, hd, hpos, hpath, hnode, hopen, hshort => by
    rw [EachBelow] at hopen hshort
    rw [opens] at hnode
    rw [nodeItems, nodeFiles]
    refine files_nodeItems target ?_ hpos hpath hnode (hopen rfl) (hshort rfl)
    intro hreg
    cases hd hreg
  | .dangling, pos, path, filename, dType, hd, hpos, hpath, hnode, hopen, hshort => by
    have hnot : dType ≠ .reg := fun hreg => by cases hd hreg
    rw [nodeItems, nodeFiles]
    simp [fileOf, visitItem, hnot]
  | .reg, pos, path, filename, dType, hd, hpos, hpath, hnode, hopen, hshort => by
    rw [nodeItems, nodeFiles]
    rfl
  | .special _, pos, path, filename, dType, hd, hpos, hpath, hnode, hopen, hshort => by
    rw [nodeItems, nodeFiles]
    rfl

end

end FindFiles

/-! ## What is reported -/

variable {pred : FilePred} {log : WalkLog} {l l₁ l₂ : List Item} {x : Item}

theorem ask_of_undecided {e : Event} (hx : x.happening = .visit e) (hodd : x.isOdd = false)
    (hmatch : x.isMatch pred = false) : (searchVisitor pred).rule.ask log x = some .continue := by
  simp only [Item.isOdd, Item.isMatch, hx] at hodd hmatch
  simp only [Visitor.rule, hx, searchVisitor]
  rcases hd : e.dType <;> simp_all

theorem ask_of_isMatch (hmatch : x.isMatch pred = true) :
    (searchVisitor pred).rule.ask log x = some .terminate := by
  unfold Item.isMatch at hmatch
  rcases hx : x.happening with e | ex
  · simp only [hx, Bool.and_eq_true, beq_iff_eq] at hmatch
    simp [Visitor.rule, hx, searchVisitor, hmatch]
  · simp [hx] at hmatch

theorem ask_of_isOdd (hodd : x.isOdd = true) : (searchVisitor pred).rule.ask log x = none := by
  unfold Item.isOdd at hodd
  rcases hx : x.happening with e | ex
  · simp only [hx] at hodd
    simp only [Visitor.rule, hx, searchVisitor]
    rcases hd : e.dType <;> simp_all
  · simp [hx] at hodd

theorem not_suppressed_of_continue (hlog : ∀ p ∈ log, p.2 = .continue) :
    ¬(searchVisitor pred).rule.Suppressed log x := by
  apply not_suppressed_of_forall
  intro p hp
  rw [hlog p hp]
  exact suppresses_continue

/-- **Up to the first report that matters**, the search goes through the whole listing. -/
theorem prune_undecided (hlog : ∀ p ∈ log, p.2 = .continue)
    (hvisit : ∀ x ∈ l, ∃ e, x.happening = .visit e)
    (hl : ∀ x ∈ l, x.isOdd = false ∧ x.isMatch pred = false) :
    (searchVisitor pred).rule.prune log l = (l.map fun x => (x, .continue), none) := by
  induction l generalizing log with
  | nil => rfl
  | cons x l ih =>
    rw [List.forall_mem_cons] at hvisit hl
    obtain ⟨e, he⟩ := hvisit.1
    have hnext : ∀ p ∈ log ++ [(x, VisitResult.continue)], p.2 = .continue := by
      intro p hp
      rcases List.mem_append.1 hp with hp | hp
      · exact hlog p hp
      · rw [List.mem_singleton.1 hp]
    rw [Rule.prune_cons_of_some (not_suppressed_of_continue hlog)
      (ask_of_undecided he hl.1.1 hl.1.2), ih hnext hvisit.2 hl.2]
    rfl

/-- **Behind a match** only directories are left. -/
theorem prune_behind_match (hpos : x.pos ≠ [])
    (hl : ∀ y ∈ l, ∃ e, y.happening = .visit e ∧ (y.isPost = true → e.dType = .dir)) :
    ((searchVisitor pred).rule.prune (log ++ [(x, .terminate)]) l).2 = none ∧
      ∀ p ∈ ((searchVisitor pred).rule.prune (log ++ [(x, .terminate)]) l).1,
        ∃ e, p.1.happening = .visit e ∧ e.dType = .dir := by
  have hasked : ∀ y ∈ (searchVisitor pred).rule.asked (log ++ [(x, .terminate)]) l,
      ∃ e, y.happening = .visit e ∧ e.dType = .dir := by
    intro y hy
    obtain ⟨e, he, hdir⟩ := hl y (Rule.asked_sublist.subset hy)
    refine ⟨e, he, hdir ?_⟩
    by_contra hpost
    refine Rule.not_suppressed_of_asked hy ⟨(x, .terminate), by simp, ?_⟩
    exact (suppresses_terminate_iff hpos).2 fun h => hpost h.1
  refine ⟨?_, ?_⟩
  · rcases hend : ((searchVisitor pred).rule.prune (log ++ [(x, .terminate)]) l).2 with _ | y
    · exact hend
    · obtain ⟨e, he, hdir⟩ := hasked y (by simp [Rule.asked, hend])
      obtain ⟨log', hnone⟩ := Rule.ask_of_not_answered hend
      simp [Visitor.rule, he, searchVisitor, hdir] at hnone
  · intro p hp
    exact hasked p.1 (List.mem_append_left _ (List.mem_map_of_mem hp))

/-! ## Evaluations -/

theorem evaluations_append (t t' : Trace) :
    evaluations (t ++ t') = evaluations t ++ evaluations t' := by
  simp [evaluations]

theorem exists_of_mem_evaluations {e : Event} (he : e ∈ evaluations log.trace) :
    ∃ p ∈ log, p.1.happening = .visit e ∧ e.dType = .reg := by
  obtain ⟨hmem, hreg⟩ := List.mem_filter.1 he
  obtain ⟨c, hc, rfl⟩ := List.mem_map.1 hmem
  obtain ⟨p, hp, hvisit, -⟩ := mem_trace_iff.1 hc
  exact ⟨p, hp, hvisit, beq_iff_eq.1 hreg⟩

/-- No evaluation succeeds where no report is a match. -/
theorem not_pred_of_undecided (hl : ∀ x ∈ l, x.isMatch pred = false) :
    ∀ e ∈ evaluations (WalkLog.trace (l.map fun x => (x, .continue))),
      ¬pred e.filepath e.filename = true := by
  intro e he hpred
  obtain ⟨p, hp, hvisit, hreg⟩ := exists_of_mem_evaluations he
  obtain ⟨x, hx, rfl⟩ := List.mem_map.1 hp
  have hmatch := hl x hx
  simp only at hvisit
  simp [Item.isMatch, hvisit, hreg, hpred] at hmatch

theorem evaluations_of_dir {new : WalkLog}
    (h : ∀ p ∈ new, ∃ e, p.1.happening = .visit e ∧ e.dType = .dir) :
    evaluations new.trace = [] := by
  rw [List.eq_nil_iff_forall_not_mem]
  intro e he
  obtain ⟨p, hp, hvisit, hreg⟩ := exists_of_mem_evaluations he
  obtain ⟨e', hvisit', hdir⟩ := h p hp
  obtain rfl := Happening.visit.inj (hvisit.symm.trans hvisit')
  cases hdir.symm.trans hreg

/-- A match is the last file on which the predicate is evaluated. -/
theorem evaluations_last {e : Event} {new : WalkLog} (hx : x.isMatch pred = true)
    (he : x.happening = .visit e)
    (hnew : ∀ p ∈ new, ∃ e, p.1.happening = .visit e ∧ e.dType = .dir) (log : WalkLog) :
    evaluations (WalkLog.trace (log ++ (x, .terminate) :: new)) =
      evaluations log.trace ++ [e] := by
  have htrace : WalkLog.trace ((x, .terminate) :: new) = (e, .terminate) :: new.trace := by
    simp [WalkLog.trace, he]
  have hreg : e.dType = .reg := by
    simp only [Item.isMatch, he, Bool.and_eq_true, beq_iff_eq] at hx
    exact hx.1
  have hnil : evaluations new.trace = [] := evaluations_of_dir hnew
  unfold evaluations at hnil
  rw [trace_append, evaluations_append, htrace]
  simp [evaluations, hreg, hnil]

/-! ## The outcome -/

variable {start : StartDir}

theorem isMatch_iff :
    x.isMatch pred = true ↔
      ∃ file, FindFiles.fileOf x = some file ∧ pred file.1 file.2 = true := by
  unfold Item.isMatch FindFiles.fileOf
  rcases x.happening with e | ex
  · by_cases hreg : e.dType = .reg <;> simp [hreg]
  · simp

theorem exists_match_iff (hopen : searchWalker.AllOpen start)
    (hshort : searchWalker.ShortPaths start) :
    (∃ x ∈ searchWalker.startListing start, x.isMatch pred = true) ↔
      ∃ file ∈ searchWalker.regularFiles start.path start.entries,
        pred file.1 file.2 = true := by
  have hpath : ([] : List ℕ).length < start.path.length :=
    List.length_pos_of_ne_nil (start.nonempty hopen.1)
  rw [FindFiles.startListing, FindFiles.openItems, if_pos hopen.1,
    ← FindFiles.files_listing (i := 0) start.entries hpath hopen.2 hshort]
  constructor
  · rintro ⟨x, hx, hmatch⟩
    obtain ⟨file, hfile, hpred⟩ := isMatch_iff.1 hmatch
    exact ⟨file, List.mem_filterMap.2 ⟨x, hx, hfile⟩, hpred⟩
  · rintro ⟨file, hfile, hpred⟩
    obtain ⟨x, hx, hxf⟩ := List.mem_filterMap.1 hfile
    exact ⟨x, hx, isMatch_iff.2 ⟨file, hxf, hpred⟩⟩

theorem visit_of_mem_startListing (hopen : searchWalker.AllOpen start)
    (hshort : searchWalker.ShortPaths start) (hx : x ∈ searchWalker.startListing start) :
    ∃ e, x.happening = .visit e ∧ (x.isPost = true → e.dType = .dir) := by
  rw [FindFiles.startListing, FindFiles.openItems, if_pos hopen.1] at hx
  exact FindFiles.visit_of_mem_listing rfl start.entries hopen.2 hshort hx

/-- The search up to an item, and the start directory in front of it. -/
theorem prune_up_to (hvisit : ∀ x ∈ l₁, ∃ e, x.happening = .visit e)
    (hl : ∀ x ∈ l₁, x.isOdd = false ∧ x.isMatch pred = false) :
    (searchVisitor pred).rule.prune [] (FindFiles.startItem start :: (l₁ ++ l₂)) =
      ((FindFiles.startItem start :: l₁).map (fun x => (x, VisitResult.continue)) ++
        ((searchVisitor pred).rule.prune
          ((FindFiles.startItem start :: l₁).map fun x => (x, .continue)) l₂).1,
        ((searchVisitor pred).rule.prune
          ((FindFiles.startItem start :: l₁).map fun x => (x, .continue)) l₂).2) := by
  have hfirst : (searchVisitor pred).rule.prune [] (FindFiles.startItem start :: l₁) =
      ((FindFiles.startItem start :: l₁).map fun x => (x, .continue), none) :=
    prune_undecided (by simp) (List.forall_mem_cons.2 ⟨⟨_, rfl⟩, hvisit⟩)
      (List.forall_mem_cons.2 ⟨⟨rfl, rfl⟩, hl⟩)
  rw [← List.cons_append, Rule.prune_append (by rw [hfirst]), hfirst]
  rfl

/-- The search behind the listing up to an item. -/
theorem findfiles_eq (hsplit : searchWalker.startListing start = l₁ ++ l₂)
    (hopen : searchWalker.AllOpen start) (hshort : searchWalker.ShortPaths start)
    (hl : ∀ x ∈ l₁, x.isOdd = false ∧ x.isMatch pred = false) :
    findfiles start pred =
      WalkLog.outcome ((FindFiles.startItem start :: l₁).map fun x => (x, .continue))
        ((searchVisitor pred).rule.prune
          ((FindFiles.startItem start :: l₁).map fun x => (x, .continue)) l₂)
        WalkLog.terminated := by
  have hvisit : ∀ x ∈ l₁, ∃ e, x.happening = .visit e := by
    intro x hx
    have hmem : x ∈ searchWalker.startListing start := by
      rw [hsplit]
      exact List.mem_append_left l₂ hx
    obtain ⟨e, he, -⟩ := visit_of_mem_startListing hopen hshort hmem
    exact ⟨e, he⟩
  have hnone : WalkLog.terminated
      ((FindFiles.startItem start :: l₁).map fun x => (x, .continue)) = false := by
    simp [WalkLog.terminated]
  rw [findfiles, FindFiles.walkFileTree_eq, FindFiles.pruned, hsplit, prune_up_to hvisit hl]
  simp only [WalkLog.outcome, List.nil_append, terminated_append, hnone, Bool.false_or]

/-- The search returns `false` where nothing matters to it. -/
theorem findsFile_of_undecided (hopen : searchWalker.AllOpen start)
    (hshort : searchWalker.ShortPaths start)
    (hl : ∀ x ∈ searchWalker.startListing start, x.isOdd = false ∧ x.isMatch pred = false) :
    FindsFile start pred := by
  have heq := findfiles_eq (List.append_nil _).symm hopen hshort hl
  refine ⟨false, _, heq, ?_, ?_⟩
  · rw [← exists_match_iff hopen hshort]
    refine iff_of_false Bool.false_ne_true ?_
    rintro ⟨x, hx, hmatch⟩
    rw [(hl x hx).2] at hmatch
    cases hmatch
  · intro pre e post hsplit hpred
    rw [Rule.prune_nil, List.append_nil] at hsplit
    have hnot : ¬pred e.filepath e.filename = true := not_pred_of_undecided
      (List.forall_mem_cons.2 ⟨rfl, fun x hx => (hl x hx).2⟩) e (by rw [hsplit]; simp)
    exact absurd hpred hnot

/-- The search stops at the first match. -/
theorem findsFile_of_match (hopen : searchWalker.AllOpen start)
    (hshort : searchWalker.ShortPaths start)
    (hsplit : searchWalker.startListing start = l₁ ++ x :: l₂)
    (hl : ∀ x ∈ l₁, x.isOdd = false ∧ x.isMatch pred = false) (hx : x.isMatch pred = true) :
    FindsFile start pred := by
  have hmem : ∀ y ∈ x :: l₂, y ∈ searchWalker.startListing start := by
    intro y hy
    rw [hsplit]
    exact List.mem_append_right l₁ hy
  obtain ⟨e, he, -⟩ := visit_of_mem_startListing hopen hshort (hmem x List.mem_cons_self)
  have hpos : x.pos ≠ [] := by
    obtain ⟨j, u, hpos⟩ := FindFiles.pos_of_mem_startListing (hmem x List.mem_cons_self)
      (by simp [Item.kind, he])
    simp [hpos]
  have heq := findfiles_eq hsplit hopen hshort hl
  rw [Rule.prune_cons_of_some (not_suppressed_of_continue (by simp)) (ask_of_isMatch hx)] at heq
  have hbehind := @prune_behind_match pred
    ((FindFiles.startItem start :: l₁).map fun x => (x, .continue)) l₂ x hpos
    fun y hy => visit_of_mem_startListing hopen hshort (hmem y (List.mem_cons_of_mem x hy))
  rcases hr : (searchVisitor pred).rule.prune
      ((FindFiles.startItem start :: l₁).map (fun x => (x, .continue)) ++ [(x, .terminate)]) l₂
    with ⟨new, _ | z⟩
  · rw [hr] at heq hbehind
    refine ⟨true, _, heq.trans (Prod.ext ?_ rfl), ?_, ?_⟩
    · simp [WalkLog.outcome, WalkLog.terminated, hpos]
    · rw [← exists_match_iff hopen hshort]
      exact iff_of_true rfl ⟨x, hmem x List.mem_cons_self, hx⟩
    · intro pre d post hevals hpred
      have hlast := evaluations_last hx he hbehind.2
      exact Pruning.eq_nil_of_last (not_pred_of_undecided
        (List.forall_mem_cons.2 ⟨rfl, fun y hy => (hl y hy).2⟩)) ((hlast _).symm.trans hevals) hpred
  · rw [hr] at hbehind
    cases hbehind.1

/-- The search throws at a report that it does not expect. -/
theorem not_findsFile_of_odd (hopen : searchWalker.AllOpen start)
    (hshort : searchWalker.ShortPaths start)
    (hsplit : searchWalker.startListing start = l₁ ++ x :: l₂)
    (hl : ∀ x ∈ l₁, x.isOdd = false ∧ x.isMatch pred = false) (hx : x.isOdd = true) :
    ¬FindsFile start pred := by
  rintro ⟨found, trace, heq, -⟩
  rw [findfiles_eq hsplit hopen hshort hl,
    Rule.prune_cons_of_none (not_suppressed_of_continue (by simp)) (ask_of_isOdd hx)] at heq
  cases congrArg Prod.fst heq

theorem not_isOdd_of_isMatch (hx : x.isMatch pred = true) : x.isOdd = false := by
  rcases x with ⟨pos, e | ex⟩
  · have hreg : e.dType = .reg := by
      simp only [Item.isMatch, Bool.and_eq_true, beq_iff_eq] at hx
      exact hx.1
    simp [Item.isOdd, hreg]
  · rfl

/-- **The search finds a file if there is one** just when all that it does not expect comes behind
a match. -/
theorem findsFile_iff (hopen : searchWalker.AllOpen start)
    (hshort : searchWalker.ShortPaths start) :
    FindsFile start pred ↔ OddBehindMatch start pred := by
  rcases hfind : (searchWalker.startListing start).find? (fun x => x.isOdd || x.isMatch pred)
    with _ | x
  · have hl : ∀ x ∈ searchWalker.startListing start,
        x.isOdd = false ∧ x.isMatch pred = false := by
      simpa using hfind
    refine iff_of_true (findsFile_of_undecided hopen hshort hl) ?_
    intro l₁ x l₂ hsplit hodd
    rw [(hl x (by rw [hsplit]; simp)).1] at hodd
    cases hodd
  · obtain ⟨hx, l₁, l₂, hsplit, hbefore⟩ := List.find?_eq_some_iff_append.1 hfind
    have hl : ∀ y ∈ l₁, y.isOdd = false ∧ y.isMatch pred = false := by
      simpa using hbefore
    cases hmatch : x.isMatch pred with
    | true =>
      refine iff_of_true (findsFile_of_match hopen hshort hsplit hl hmatch) ?_
      intro m₁ y m₂ hy hodd
      have hne : x ≠ y := by
        rintro rfl
        rw [not_isOdd_of_isMatch hmatch] at hodd
        cases hodd
      have hbehind : y ∉ l₁ := by
        intro hmem
        rw [(hl y hmem).1] at hodd
        cases hodd
      exact ⟨x, Pruning.mem_front_of_split (hsplit.symm.trans hy) hne hbehind, hmatch⟩
    | false =>
      have hodd : x.isOdd = true := by simpa [hmatch] using hx
      refine iff_of_false (not_findsFile_of_odd hopen hshort hsplit hl hodd) ?_
      intro h
      obtain ⟨y, hy, hymatch⟩ := h l₁ x l₂ hsplit hodd
      rw [(hl y hy).2] at hymatch
      cases hymatch

/-! ## A socket beside the file -/

def isLibJvm : FilePred := fun _ name => name == "libjvm.so".toList

/-- A directory that is in order, with the given entries. -/
def javaHome (es : Entries) : StartDir := ⟨"/j".toList, true, es, by decide⟩

def socketThenFile : Entries :=
  .cons (.of "sock") false (.special .sock) (.cons (.of "libjvm.so") false .reg .nil)

def fileThenSocket : Entries :=
  .cons (.of "libjvm.so") false .reg (.cons (.of "sock") false (.special .sock) .nil)

theorem findsFile_fileThenSocket : FindsFile (javaHome fileThenSocket) isLibJvm := by
  refine (findsFile_iff ?_ ?_).2 ?_
  · simp [FindFiles.AllOpen, javaHome, fileThenSocket, FindFiles.EachEntry, FindFiles.EachBelow,
      FindFiles.opens]
  · simp [FindFiles.ShortPaths, javaHome, fileThenSocket, FindFiles.EachEntry, FindFiles.EachBelow,
      FindFiles.fullPath, FileName.of, strbufSize, kPathSeparator, searchWalker]
  · intro l₁ x l₂ hsplit hodd
    have hlist : searchWalker.startListing (javaHome fileThenSocket) =
        [FindFiles.visitItem [0] "/j/libjvm.so".toList "libjvm.so".toList .reg .visitFile,
          FindFiles.visitItem [1] "/j/sock".toList "sock".toList (.special .sock) .visitFile] := by
      decide
    rw [hlist] at hsplit
    rcases l₁ with _ | ⟨y, l₁⟩
    · rw [← (List.cons.inj hsplit).1] at hodd
      cases hodd
    · rw [← (List.cons.inj hsplit).1]
      exact ⟨_, List.mem_cons_self, by decide⟩

/-- The file is there, but the search ends at the socket in front of it. -/
theorem not_findsFile_socketThenFile :
    searchWalker.AllOpen (javaHome socketThenFile) ∧
      searchWalker.ShortPaths (javaHome socketThenFile) ∧
      ¬FindsFile (javaHome socketThenFile) isLibJvm := by
  refine ⟨?_, ?_, ?_⟩
  · simp [FindFiles.AllOpen, javaHome, socketThenFile, FindFiles.EachEntry, FindFiles.EachBelow,
      FindFiles.opens]
  · simp [FindFiles.ShortPaths, javaHome, socketThenFile, FindFiles.EachEntry, FindFiles.EachBelow,
      FindFiles.fullPath, FileName.of, strbufSize, kPathSeparator, searchWalker]
  · rintro ⟨found, trace, heq, -⟩
    have herror : (findfiles (javaHome socketThenFile) isLibJvm).1 =
        .error (.thrown ⟨"/j/sock".toList, "sock".toList, 1, .special .sock, .visitFile⟩) := by
      rfl
    rw [heq] at herror
    cases herror

end Spartan
