import Mathlib.Data.List.Nodup
import SpartanLauncher.WalkFileTree

/-!
# The walk without links

With `follow_links` false, entries that are reported with their types, and directories that can be
opened, a walk comes to the tree itself.

**Theorem (`walkFileTree_depthFirst`).** If the visitor never answers `TERMINATE`, its callbacks
below the start directory are the depth-first listing of the tree without what the answers skip,
and no entry is reported twice.
-/

namespace Spartan

open Pruning

namespace FindFiles

variable (ff : FindFiles)

/-! ## The tree in depth-first order -/

mutual

/-- The entries in the order of `readdir`, each directory with its contents. -/
def depthFirst (dir : List Char) (pos : List ℕ) : Entries → ℕ → List Item
  | .nil, _ => []
  | .cons name _ node rest, i =>
    (if name.isDot then []
      else depthFirstNode (pos ++ [i]) (ff.fullPath dir name) name.chars node) ++
    depthFirst dir pos rest (i + 1)

def depthFirstNode (pos : List ℕ) (path filename : List Char) : Node → List Item
  | .dir _ entries =>
    if pos.length < ff.maxdepth then
      preItem pos path filename ::
        (depthFirst path pos entries 0 ++ [postItem pos path filename])
    else []
  | .lnk _ | .dangling => [visitItem pos path filename .lnk .visitFile]
  | .reg => [visitItem pos path filename .reg .visitFile]
  | .special kind => [visitItem pos path filename (.special kind) .visitFile]

end

variable {ff} {dir path filename : List Char} {pos : List ℕ}

mutual

theorem listing_eq_depthFirst (hlinks : ff.followLinks = false) :
    ∀ (es : Entries) {dir : List Char} {pos : List ℕ} {i : ℕ},
    ff.EachEntry (fun _ _ node => ff.opens node = true) dir es →
    ff.EachEntry (fun path _ _ => path.length < strbufSize) dir es →
    ff.EachEntry (fun _ isUnknown _ => isUnknown = false) dir es →
    ff.listing dir pos es i = ff.depthFirst dir pos es i
  | .nil, _, _, _, _, _, _ => by rw [listing, depthFirst]
  | .cons name isUnknown node rest, dir, pos, i, hopen, hshort, htypes => by
    rw [EachEntry] at hopen hshort htypes
    rw [listing_cons, depthFirst, listing_eq_depthFirst hlinks rest hopen.2 hshort.2 htypes.2]
    cases hdot : name.isDot with
    | true => rfl
    | false =>
      have hlen := not_le_of_gt (hshort.1 hdot).1
      obtain ⟨rfl, hnode⟩ := htypes.1 hdot
      rw [if_neg hlen, entryItems_eq_depthFirstNode hlinks node (hopen.1 hdot).1 (hopen.1 hdot).2
        (hshort.1 hdot).2 hnode]

theorem entryItems_eq_depthFirstNode (hlinks : ff.followLinks = false) :
    ∀ (node : Node) {pos : List ℕ} {path filename : List Char}, ff.opens node = true →
    ff.EachBelow (fun _ _ node => ff.opens node = true) path node →
    ff.EachBelow (fun path _ _ => path.length < strbufSize) path node →
    ff.EachBelow (fun _ isUnknown _ => isUnknown = false) path node →
    ff.entryItems pos path filename false node = ff.depthFirstNode pos path filename node
  | .dir canOpen entries, pos, path, filename, hdir, hopen, hshort, htypes => by
    rw [EachBelow] at hopen hshort htypes
    rw [opens] at hdir
    rw [depthFirstNode, ← listing_eq_depthFirst hlinks entries hopen hshort htypes, hdir]
    show ff.nodeItems pos path filename .dir (.dir true entries) = _
    rw [nodeItems]
    rfl
  | .lnk target, pos, path, filename, _, _, _, _ => by
    simp [entryItems, resolves, Node.reported, Node.dType, depthFirstNode, hlinks]
  | .dangling, pos, path, filename, _, _, _, _ => by
    simp [entryItems, resolves, Node.reported, Node.dType, depthFirstNode, hlinks]
  | .reg, pos, path, filename, _, _, _, _ => by
    simp [entryItems, resolves, Node.reported, Node.dType, depthFirstNode, nodeItems]
  | .special kind, pos, path, filename, _, _, _, _ => by
    simp [entryItems, resolves, Node.reported, Node.dType, depthFirstNode]

end

mutual

theorem visit_of_mem_depthFirst : ∀ (es : Entries) {x : Item} {dir : List Char} {pos : List ℕ}
    {i : ℕ}, x ∈ ff.depthFirst dir pos es i → ∃ e, x.happening = .visit e
  | .nil, _, _, _, _, h => by
    rw [depthFirst] at h
    cases h
  | .cons name isUnknown node rest, x, dir, pos, i, h => by
    rw [depthFirst, List.mem_append] at h
    rcases h with h | h
    · split_ifs at h
      · cases h
      · exact visit_of_mem_depthFirstNode node h
    · exact visit_of_mem_depthFirst rest h

theorem visit_of_mem_depthFirstNode : ∀ (node : Node) {x : Item} {pos : List ℕ}
    {path filename : List Char}, x ∈ ff.depthFirstNode pos path filename node →
    ∃ e, x.happening = .visit e
  | .dir canOpen entries, x, pos, path, filename, h => by
    rw [depthFirstNode] at h
    split_ifs at h
    · rcases List.mem_cons.1 h with rfl | h
      · exact ⟨_, rfl⟩
      · rcases List.mem_append.1 h with h | h
        · exact visit_of_mem_depthFirst entries h
        · exact List.mem_singleton.1 h ▸ ⟨_, rfl⟩
    · cases h
  | .lnk _, x, pos, path, filename, h => by
    rw [depthFirstNode] at h
    exact List.mem_singleton.1 h ▸ ⟨_, rfl⟩
  | .dangling, x, pos, path, filename, h => by
    rw [depthFirstNode] at h
    exact List.mem_singleton.1 h ▸ ⟨_, rfl⟩
  | .reg, x, pos, path, filename, h => by
    rw [depthFirstNode] at h
    exact List.mem_singleton.1 h ▸ ⟨_, rfl⟩
  | .special kind, x, pos, path, filename, h => by
    rw [depthFirstNode] at h
    exact List.mem_singleton.1 h ▸ ⟨_, rfl⟩

end

/-! ## Each entry once -/

/-- What a report is about: an entry, and which kind of callback it gets. -/
def key (x : Item) : List ℕ × Option VisitKind := (x.pos, x.kind)

theorem nodup_dirItems {canOpen : Bool} {contents : List Item}
    (hcontents : ∀ y ∈ contents, Inside pos y.pos) (hnodup : (contents.map key).Nodup) :
    ((dirItems pos path filename canOpen contents).map key).Nodup := by
  cases canOpen with
  | false => simp [dirItems, openItems, key, Item.kind, visitItem]
  | true =>
    have hnot : ∀ kind, (pos, kind) ∉ contents.map key := by
      intro kind hmem
      obtain ⟨y, hy, hkey⟩ := List.mem_map.1 hmem
      exact (hcontents y hy).2 (congrArg Prod.fst hkey).symm
    rw [dirItems, openItems, if_pos rfl, List.map_cons, List.map_append, List.nodup_cons]
    constructor
    · rw [List.mem_append, not_or]
      exact ⟨hnot _, by simp [key]⟩
    · refine hnodup.append (List.nodup_singleton _) ?_
      intro k hk hpost
      rw [List.map_singleton, List.mem_singleton] at hpost
      exact hnot _ (hpost ▸ hk)

mutual

/-- **No entry is listed twice** for the same kind of callback. -/
theorem nodup_listing : ∀ (es : Entries) {dir : List Char} {pos : List ℕ} {i : ℕ},
    ((ff.listing dir pos es i).map key).Nodup
  | .nil, _, _, _ => by
    rw [listing]
    exact List.nodup_nil
  | .cons name isUnknown node rest, dir, pos, i => by
    rw [listing_cons, List.map_append]
    refine List.Nodup.append ?_ (nodup_listing rest) ?_
    · split_ifs
      · exact List.nodup_nil
      · exact List.nodup_singleton _
      · unfold entryItems
        split_ifs
        · exact nodup_nodeItems node
        · exact List.nodup_singleton _
    · intro k hentry hrest
      obtain ⟨x, hx, rfl⟩ := List.mem_map.1 hentry
      obtain ⟨y, hy, hkey⟩ := List.mem_map.1 hrest
      obtain ⟨j, v, hj, hv⟩ := pos_of_mem_listing rest hy
      have hprefix : pos ++ [i] <+: x.pos := by
        split_ifs at hx
        · cases hx
        · exact List.mem_singleton.1 hx ▸ List.prefix_rfl
        · exact pos_of_mem_entryItems hx
      have hpos : y.pos = x.pos := congrArg Prod.fst hkey
      rw [← hpos, hv] at hprefix
      exact not_prefix_of_ne (show i ≠ j by omega) hprefix

theorem nodup_nodeItems : ∀ (node : Node) {pos : List ℕ} {path filename : List Char}
    {dType : DType}, ((ff.nodeItems pos path filename dType node).map key).Nodup
  | .dir canOpen entries, pos, path, filename, dType => by
    rw [nodeItems]
    split_ifs
    · refine nodup_dirItems ?_ (nodup_listing entries)
      intro y hy
      obtain ⟨j, u, -, hx⟩ := pos_of_mem_listing entries hy
      exact hx ▸ inside_append (by simp)
    · exact List.nodup_nil
  | .lnk target, pos, path, filename, dType => by
    rw [nodeItems]
    exact nodup_nodeItems target
  | .dangling, pos, path, filename, dType => by
    rw [nodeItems]
    exact List.nodup_singleton _
  | .reg, pos, path, filename, dType => by
    rw [nodeItems]
    exact List.nodup_singleton _
  | .special kind, pos, path, filename, dType => by
    rw [nodeItems]
    exact List.nodup_nil

end

/-! ## The callbacks -/

section Returning

variable {answer : Trace → Event → VisitResult} {log : WalkLog} {l : List Item}

theorem answer_of_reported {p : Item × VisitResult}
    (hp : p ∈ ((Visitor.returning answer).rule.prune log l).1) : ∃ t e, p.2 = answer t e := by
  obtain ⟨log', ha⟩ := Rule.ask_of_reported hp
  rcases hx : p.1.happening with e | ex
  · simp only [Visitor.rule, hx] at ha
    exact ⟨_, e, (Option.some.inj ha).symm⟩
  · simp [Visitor.rule, hx] at ha

theorem fault_of_not_answered {x : Item}
    (h : ((Visitor.returning answer).rule.prune log l).2 = some x) :
    ∃ ex, x.happening = .fault ex := by
  obtain ⟨log', ha⟩ := Rule.ask_of_not_answered h
  rcases hx : x.happening with e | ex
  · simp [Visitor.rule, Visitor.returning, hx] at ha
  · exact ⟨ex, rfl⟩

end Returning

/-- **The walk without links** reports the entries of the tree in depth-first order: all that the
answers do not skip, and none of them twice. -/
theorem walkFileTree_depthFirst {answer : Trace → Event → VisitResult} {start : StartDir}
    (hlinks : ff.followLinks = false) (hopen : ff.AllOpen start) (hshort : ff.ShortPaths start)
    (htypes : ff.TrueTypes start) (hterm : ∀ t e, answer t e ≠ .terminate) :
    ∃ log : WalkLog,
      (Visitor.returning answer).rule.prune [(startItem start, answer [] (startEvent start))]
        (ff.depthFirst start.path [] start.entries 0) = (log, none) ∧
      ff.walkFileTree (Visitor.returning answer) start =
        (.ok false, (startEvent start, answer [] (startEvent start)) :: log.trace) ∧
      (log.map fun p => key p.1).Nodup := by
  have hlisting : ff.startListing start = ff.depthFirst start.path [] start.entries 0 := by
    rw [startListing, hopen.1]
    exact listing_eq_depthFirst hlinks start.entries hopen.2 hshort htypes
  have hstart : ¬(Visitor.returning answer).rule.Suppressed [] (startItem start) := by
    simp [Rule.Suppressed]
  have hask : (Visitor.returning answer).rule.ask [] (startItem start) =
      some (answer [] (startEvent start)) := rfl
  rcases hr : (Visitor.returning answer).rule.prune
    [(startItem start, answer [] (startEvent start))]
    (ff.depthFirst start.path [] start.entries 0) with ⟨log, _ | x⟩
  · have hreported : log = _ := (congrArg Prod.fst hr).symm
    refine ⟨log, rfl, ?_, ?_⟩
    · have hstopped : WalkLog.terminated
          ((startItem start, answer [] (startEvent start)) :: log) = false := by
        rw [WalkLog.terminated, List.any_eq_false]
        intro p hp
        rcases List.mem_cons.1 hp with rfl | hp
        · simp [startItem]
        · rw [hreported] at hp
          obtain ⟨t, e, hvr⟩ := answer_of_reported hp
          simp [hvr, hterm t e]
      rw [walkFileTree_eq, pruned, hlisting, Rule.prune_cons_of_some hstart hask, List.nil_append,
        hr]
      simp only [WalkLog.outcome, hstopped]
      rfl
    · have hsub : (log.map Prod.fst).Sublist (ff.listing start.path [] start.entries 0) := by
        rw [listing_eq_depthFirst hlinks start.entries hopen.2 hshort htypes, hreported]
        exact Rule.prune_reported_sublist
      have hmap := hsub.map key
      rw [List.map_map] at hmap
      exact (nodup_listing start.entries).sublist hmap
  · have hend := congrArg Prod.snd hr
    obtain ⟨e, he⟩ := visit_of_mem_depthFirst start.entries (Rule.mem_of_not_answered hend)
    obtain ⟨ex, hex⟩ := fault_of_not_answered hend
    rw [he] at hex
    cases hex

/-- A directory with two files, a link and a socket, in the directory `/d`. -/
def sampleDir : StartDir where
  path := "/d".toList
  canOpen := true
  entries :=
    .cons (.of "a") false
      (.dir true (.cons (.of "b") false .reg (.cons (.of "c") false .reg .nil)))
      (.cons (.of "l") false (.lnk .reg) (.cons (.of "s") false (.special .sock) .nil))
  nonempty := by decide

/-- Skips what comes behind the file `b`. -/
def skipBehind : Trace → Event → VisitResult :=
  fun _ e => if e.filename = "b".toList then .skipSiblings else .continue

theorem walkFileTree_depthFirst_sample :
    ((FindFiles.walkFileTree {} (Visitor.returning skipBehind) sampleDir).2.map fun c =>
      (String.ofList c.1.filepath, c.1.kind)) =
      [("/d", .preVisitDirectory), ("/d/a", .preVisitDirectory), ("/d/a/b", .visitFile),
        ("/d/a", .postVisitDirectory), ("/d/l", .visitFile), ("/d/s", .visitFile)] ∧
    ∃ log : WalkLog,
      (Visitor.returning skipBehind).rule.prune [(startItem sampleDir, .continue)]
        (FindFiles.depthFirst {} "/d".toList [] sampleDir.entries 0) = (log, none) ∧
      FindFiles.walkFileTree {} (Visitor.returning skipBehind) sampleDir =
        (.ok false, (startEvent sampleDir, .continue) :: log.trace) ∧
      (log.map fun p => key p.1).Nodup := by
  refine ⟨by decide, walkFileTree_depthFirst rfl ?_ ?_ ?_ ?_⟩
  · simp [AllOpen, sampleDir, EachEntry, EachBelow, opens, FileName.isDot]
  · simp [ShortPaths, sampleDir, EachEntry, EachBelow, fullPath, FileName.of, strbufSize,
      kPathSeparator]
  · simp [TrueTypes, sampleDir, EachEntry, EachBelow]
  · intro t e
    unfold skipBehind
    split_ifs <;> decide

end FindFiles

end Spartan
