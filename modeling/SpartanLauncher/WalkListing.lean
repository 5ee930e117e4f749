import SpartanLauncher.FindFiles
import SpartanLauncher.Lib.Pruning

/-!
# What a directory walk can come to

A depth-first listing says what a walk would come to if the visitor always let it go on, and the
answers of the visitor suppress parts of the listing. Each item of the listing has a place in the
tree, and what an answer suppresses only depends on places.
-/

namespace Spartan

open Pruning

/-! ## Listings -/

/-- What a walk can come to. -/
inductive Happening where
  | visit (event : Event)
  | fault (ex : FindFilesException)
  deriving DecidableEq

/-- A happening with its place: the indices of the entries on the way to it. -/
structure Item where
  pos : List ℕ
  happening : Happening
  deriving DecidableEq

/-- The kind of a visit; errors have none. -/
def Item.kind (x : Item) : Option VisitKind :=
  match x.happening with
  | .visit e => some e.kind
  | .fault _ => none

def Item.isKind (x : Item) (kind : VisitKind) : Bool := x.kind == some kind

def Item.isPost (x : Item) : Bool := x.isKind .postVisitDirectory

/-- How the walk ends where there is no answer. -/
def Item.error (x : Item) : WalkError :=
  match x.happening with
  | .visit e => .thrown e
  | .fault ex => .exception ex

/-- The type that `readdir` has for a node. -/
def Node.dType : Node → DType
  | .reg => .reg
  | .special kind => .special kind
  | .dir _ _ => .dir
  | .lnk _ | .dangling => .lnk

/-- The type that `readdir` reports. -/
def Node.reported (node : Node) (isUnknown : Bool) : DType :=
  if isUnknown then .unknown else node.dType

namespace FindFiles

def visitItem (pos : List ℕ) (path filename : List Char) (dType : DType)
    (kind : VisitKind) : Item :=
  ⟨pos, .visit ⟨path, filename, pos.length, dType, kind⟩⟩

abbrev preItem (pos : List ℕ) (path filename : List Char) : Item :=
  visitItem pos path filename .dir .preVisitDirectory

abbrev postItem (pos : List ℕ) (path filename : List Char) : Item :=
  visitItem pos path filename .dir .postVisitDirectory

/-- The inside of a directory. -/
def openItems (pos : List ℕ) (path : List Char) (canOpen : Bool) (contents : List Item) :
    List Item :=
  if canOpen then contents else [⟨pos, .fault (.cannotOpen path)⟩]

def dirItems (pos : List ℕ) (path filename : List Char) (canOpen : Bool) (contents : List Item) :
    List Item :=
  preItem pos path filename ::
    (openItems pos path canOpen contents ++ [postItem pos path filename])

/-- Whether an entry is taken for what `stat` finds, where it is called or would say the same. -/
def resolves (ff : FindFiles) : DType → Bool
  | .unknown | .dir | .reg => true
  | .lnk => ff.followLinks
  | .special _ => false

variable (ff : FindFiles)

mutual

/-- The depth-first listing of the directory at `pos`, from the entry with the index `i`. -/
def listing (dir : List Char) (pos : List ℕ) : Entries → ℕ → List Item
  | .nil, _ => []
  | .cons name isUnknown node rest, i =>
    (if name.isDot then []
      else if strbufSize ≤ (ff.fullPath dir name).length then
        [⟨pos ++ [i], .fault (.pathTooLong name.chars)⟩]
      else if ff.resolves (node.reported isUnknown) then
        nodeItems (pos ++ [i]) (ff.fullPath dir name) name.chars (node.reported isUnknown) node
      else
        [visitItem (pos ++ [i]) (ff.fullPath dir name) name.chars (node.reported isUnknown)
          .visitFile]) ++
    listing dir pos rest (i + 1)

/-- The part of the listing for an entry that `readdir` reports with the type `dType`. -/
def nodeItems (pos : List ℕ) (path filename : List Char) (dType : DType) : Node → List Item
  | .dir canOpen entries =>
    if pos.length < ff.maxdepth then
      dirItems pos path filename canOpen (listing path pos entries 0)
    else []
  | .lnk target => nodeItems pos path filename dType target
  | .dangling => [visitItem pos path filename dType .visitFileFailed]
  | .reg => [visitItem pos path filename .reg .visitFile]
  | .special _ => []

end

/-- The part of the listing for an entry. -/
def entryItems (pos : List ℕ) (path filename : List Char) (isUnknown : Bool) (node : Node) :
    List Item :=
  if ff.resolves (node.reported isUnknown) then
    nodeItems ff pos path filename (node.reported isUnknown) node
  else [visitItem pos path filename (node.reported isUnknown) .visitFile]

/-- The listing of everything in the start directory. -/
def startListing (start : StartDir) : List Item :=
  openItems [] start.path start.canOpen (ff.listing start.path [] start.entries 0)

def startItem (start : StartDir) : Item := ⟨[], .visit (startEvent start)⟩

end FindFiles

/-! ## Conditions on a tree -/

namespace FindFiles

variable (ff : FindFiles)

mutual

/-- Every entry satisfies `P`, which gets its full path, whether its type is unknown, and its node.
What a link leads to counts where links are followed. -/
def EachEntry (P : List Char → Bool → Node → Prop) (dir : List Char) : Entries → Prop
  | .nil => True
  | .cons name isUnknown node rest =>
    (name.isDot = false →
      P (ff.fullPath dir name) isUnknown node ∧ EachBelow P (ff.fullPath dir name) node) ∧
    EachEntry P dir rest

def EachBelow (P : List Char → Bool → Node → Prop) (path : List Char) : Node → Prop
  | .dir _ entries => EachEntry P path entries
  | .lnk target => ff.followLinks = true → EachBelow P path target
  | .reg | .special _ | .dangling => True

end

/-- A directory that a walk comes to at a node can be opened. -/
def opens : Node → Bool
  | .dir canOpen _ => canOpen
  | .lnk target => !ff.followLinks || opens target
  | .reg | .special _ | .dangling => true

def AllOpen (start : StartDir) : Prop :=
  start.canOpen = true ∧
    ff.EachEntry (fun _ _ node => ff.opens node = true) start.path start.entries

def ShortPaths (start : StartDir) : Prop :=
  ff.EachEntry (fun path _ _ => path.length < strbufSize) start.path start.entries

def TrueTypes (start : StartDir) : Prop :=
  ff.EachEntry (fun _ isUnknown _ => isUnknown = false) start.path start.entries

end FindFiles

/-! ## Answers -/

/-- The place `q` is inside of the directory at `p`. -/
def Inside (p q : List ℕ) : Prop := p <+: q ∧ p ≠ q

instance (p q : List ℕ) : Decidable (Inside p q) := inferInstanceAs (Decidable (_ ∧ _))

/-- Which parts of a listing an answer leaves out. The answer for the start directory has no
effect, and neither has an answer to skip anything when a directory is left. -/
def Item.suppresses (x : Item) (vr : VisitResult) (y : Item) : Bool :=
  decide (x.pos ≠ []) &&
    match vr with
    | .continue => false
    -- the directory itself, without what was reported before
    | .skipSubtree => x.isKind .preVisitDirectory && decide (x.pos <+: y.pos)
    -- everything that is still to come in the directory around
    | .skipSiblings => !x.isPost && decide (Inside x.pos.dropLast y.pos)
    -- everything, except that the directories around are left one by one
    | .terminate => !(y.isPost && decide (Inside y.pos x.pos))

abbrev WalkLog := List (Item × VisitResult)

/-- The callbacks of a log. -/
def WalkLog.trace (log : WalkLog) : Trace :=
  log.filterMap fun p =>
    match p.1.happening with
    | .visit e => some (e, p.2)
    | .fault _ => none

/-- The visitor as the one who is asked. Errors are not answered. -/
def Visitor.rule (visitor : Visitor) : Rule Item VisitResult where
  ask log x :=
    match x.happening with
    | .visit e => visitor (WalkLog.trace log) e
    | .fault _ => none
  suppresses := Item.suppresses

/-- Whether the walk was stopped; the answer for the start directory does not stop it. -/
def WalkLog.terminated (log : WalkLog) : Bool :=
  log.any fun p => decide (p.1.pos ≠ []) && p.2 == .terminate

/-- Whether the entries behind the one at `pos` are skipped. -/
def WalkLog.skipsSiblings (log : WalkLog) (pos : List ℕ) : Bool :=
  log.any fun p => decide (p.1.pos = pos) && !p.1.isPost && p.2 == .skipSiblings

/-- What a walker has to return, or throw, for a pruned listing, and its callbacks. -/
def WalkLog.outcome (log : WalkLog) (pruned : WalkLog × Option Item) (value : WalkLog → α) :
    Except WalkError α × Trace :=
  (match pruned.2 with
    | none => .ok (value pruned.1)
    | some x => .error x.error,
    WalkLog.trace (log ++ pruned.1))

/-- The walk as a rule of pruning describes it: what is left of the listing. -/
def FindFiles.pruned (ff : FindFiles) (r : Rule Item VisitResult) (start : StartDir) :
    WalkLog × Option Item :=
  r.prune [] (startItem start :: ff.startListing start)

/-! ## Places -/

theorem inside_append {p u : List ℕ} (hu : u ≠ []) : Inside p (p ++ u) := by
  refine ⟨List.prefix_append p u, ?_⟩
  intro h
  exact hu (List.self_eq_append_right.1 h)

theorem Inside.length_lt {p q : List ℕ} (h : Inside p q) : p.length < q.length :=
  lt_of_le_of_ne h.1.length_le fun hlen => h.2 (h.1.eq_of_length hlen)

theorem not_inside_of_prefix {p q : List ℕ} (h : q <+: p) : ¬Inside p q := by
  intro hin
  exact absurd h.length_le (not_le_of_gt hin.length_lt)

/-- Places behind different entries of a directory do not lie inside each other. -/
theorem not_prefix_of_ne {p u v : List ℕ} {i j : ℕ} (h : i ≠ j) :
    ¬p ++ i :: u <+: p ++ j :: v := by
  rw [List.prefix_append_right_inj, List.cons_prefix_cons]
  exact fun hp => h hp.1

theorem inside_dropLast {p q : List ℕ} (hp : p ≠ []) (h : p <+: q) : Inside p.dropLast q := by
  obtain ⟨v, rfl⟩ := h
  obtain ⟨u, i, rfl⟩ := (List.eq_nil_or_concat p).resolve_left hp
  rw [List.concat_eq_append, List.dropLast_concat, List.append_assoc]
  exact inside_append (by simp)

/-! ## What an answer suppresses -/

theorem not_suppressed_of_forall {visitor : Visitor} {log : WalkLog} {y : Item}
    (h : ∀ p ∈ log, p.1.suppresses p.2 y = false) : ¬visitor.rule.Suppressed log y := by
  rintro ⟨p, hp, hsuppressed⟩
  exact absurd ((h p hp).symm.trans hsuppressed) Bool.false_ne_true

theorem not_suppressed_append {visitor : Visitor} {log new : WalkLog} {y : Item}
    (hlog : ¬visitor.rule.Suppressed log y) (hnew : ∀ p ∈ new, p.1.suppresses p.2 y = false) :
    ¬visitor.rule.Suppressed (log ++ new) y := by
  rw [Rule.suppressed_append, not_or]
  exact ⟨hlog, not_suppressed_of_forall hnew⟩

theorem isPost_of_isPre {x : Item} (h : x.isKind .preVisitDirectory = true) :
    x.isPost = false := by
  unfold Item.isPost Item.isKind
  rw [beq_iff_eq.1 h]
  rfl

/-- **A directory is left out** with every answer to its first callback except `CONTINUE`. -/
theorem suppresses_of_pre {x y : Item} {vr : VisitResult} (hpos : x.pos ≠ [])
    (hpre : x.isKind .preVisitDirectory = true) (hvr : vr ≠ .continue) (hy : x.pos <+: y.pos) :
    x.suppresses vr y = true := by
  cases vr with
  | «continue» => exact absurd rfl hvr
  | terminate => simp [Item.suppresses, hpos, not_inside_of_prefix hy]
  | skipSubtree => simp [Item.suppresses, hpos, hpre, hy]
  | skipSiblings => simp [Item.suppresses, hpos, isPost_of_isPre hpre, inside_dropLast hpos hy]

@[simp]
theorem suppresses_continue {x y : Item} : x.suppresses .continue y = false := by
  simp [Item.suppresses]

theorem suppresses_terminate_iff {x y : Item} (hpos : x.pos ≠ []) :
    x.suppresses .terminate y = true ↔ ¬(y.isPost = true ∧ Inside y.pos x.pos) := by
  cases hpost : y.isPost <;> simp [Item.suppresses, hpos, hpost]

/-- The answer for the start directory suppresses nothing. -/
theorem suppresses_of_start {x y : Item} {vr : VisitResult} (hpos : x.pos = []) :
    x.suppresses vr y = false := by
  simp [Item.suppresses, hpos]

/-- **A directory is left** whatever the answers inside were. -/
theorem suppresses_post {x y : Item} {vr : VisitResult} (hpost : y.isPost = true)
    (hin : Inside y.pos x.pos) : x.suppresses vr y = false := by
  have hnot : ¬x.pos <+: y.pos := fun h => not_inside_of_prefix h hin
  have hlast : ¬Inside x.pos.dropLast y.pos := by
    intro h
    have hx := hin.length_lt
    have hy := h.length_lt
    rw [List.length_dropLast] at hy
    omega
  cases vr with
  | «continue» => exact suppresses_continue
  | terminate => simp [Item.suppresses, hpost, hin]
  | skipSubtree => simp [Item.suppresses, hnot]
  | skipSiblings => simp [Item.suppresses, hlast]

section Siblings

variable {p u v : List ℕ} {i j : ℕ} {x y : Item} {vr : VisitResult}

/-- **Later entries** are left out behind `TERMINATE`, wherever it was answered. -/
theorem suppresses_sibling_of_terminate (hx : x.pos = p ++ i :: u) (hy : y.pos = p ++ j :: v)
    (hij : i ≠ j) : x.suppresses .terminate y = true := by
  have hin : ¬Inside y.pos x.pos := by
    rw [hx, hy]
    exact fun h => not_prefix_of_ne hij.symm h.1
  have hpos : x.pos ≠ [] := by simp [hx]
  simp [Item.suppresses, hpos, hin]

theorem suppresses_sibling_of_skip (hx : x.pos = p ++ [i]) (hy : y.pos = p ++ j :: v)
    (hpost : x.isPost = false) : x.suppresses .skipSiblings y = true := by
  have hin : Inside p y.pos := hy ▸ inside_append (by simp)
  have hlast : x.pos.dropLast = p := by rw [hx, List.dropLast_concat]
  have hpos : x.pos ≠ [] := by simp [hx]
  simp [Item.suppresses, hpos, hpost, hlast, hin]

/-- No other answer for an entry concerns the later ones. -/
theorem not_suppresses_sibling (hx : x.pos = p ++ i :: u) (hy : y.pos = p ++ j :: v)
    (hij : i ≠ j) (hterm : vr ≠ .terminate)
    (hskip : ¬(x.pos = p ++ [i] ∧ x.isPost = false ∧ vr = .skipSiblings)) :
    x.suppresses vr y = false := by
  cases vr with
  | «continue» => exact suppresses_continue
  | terminate => exact absurd rfl hterm
  | skipSubtree =>
    have hnot : ¬x.pos <+: y.pos := by
      rw [hx, hy]
      exact not_prefix_of_ne hij
    simp [Item.suppresses, hnot]
  | skipSiblings =>
    cases hpost : x.isPost with
    | true => simp [Item.suppresses, hpost]
    | false =>
      have hu : u ≠ [] := by
        intro hu
        exact hskip ⟨by rw [hx, hu], hpost, rfl⟩
      have hnot : ¬Inside x.pos.dropLast y.pos := by
        intro h
        rw [hx, hy, List.dropLast_append_of_ne_nil (by simp), List.dropLast_cons_of_ne_nil hu] at h
        exact not_prefix_of_ne hij h.1
      simp [Item.suppresses, hnot]

end Siblings

/-! ## Places in a listing -/

namespace FindFiles

variable {ff : FindFiles} {x : Item} {dir path filename : List Char} {pos : List ℕ} {dType : DType}

theorem mem_openItems {canOpen : Bool} {contents : List Item}
    (h : x ∈ openItems pos path canOpen contents) :
    x ∈ contents ∨ x = ⟨pos, .fault (.cannotOpen path)⟩ := by
  unfold openItems at h
  split_ifs at h
  · exact .inl h
  · exact .inr (List.mem_singleton.1 h)

theorem mem_dirItems_iff {canOpen : Bool} {contents : List Item} :
    x ∈ dirItems pos path filename canOpen contents ↔
      x = preItem pos path filename ∨ x ∈ openItems pos path canOpen contents ∨
        x = postItem pos path filename := by
  simp [dirItems]

theorem pos_of_mem_dirItems {canOpen : Bool} {contents : List Item}
    (hcontents : ∀ y ∈ contents, pos <+: y.pos)
    (h : x ∈ dirItems pos path filename canOpen contents) : pos <+: x.pos := by
  rcases mem_dirItems_iff.1 h with rfl | h | rfl
  · exact List.prefix_rfl
  · rcases mem_openItems h with h | rfl
    · exact hcontents x h
    · exact List.prefix_rfl
  · exact List.prefix_rfl

mutual

/-- The entries of a directory lie inside of it. -/
theorem pos_of_mem_listing : ∀ (es : Entries) {x : Item} {dir : List Char} {pos : List ℕ}
    {i : ℕ}, x ∈ ff.listing dir pos es i → ∃ j u, i ≤ j ∧ x.pos = pos ++ j :: u
  | .nil, _, _, _, _, h => by
    rw [listing] at h
    cases h
  | .cons name isUnknown node rest, x, dir, pos, i, h => by
    rw [listing, List.mem_append] at h
    rcases h with h | h
    · have hpre : pos ++ [i] <+: x.pos := by
        split_ifs at h
        · cases h
        · exact List.mem_singleton.1 h ▸ List.prefix_rfl
        · exact pos_of_mem_nodeItems node h
        · exact List.mem_singleton.1 h ▸ List.prefix_rfl
      obtain ⟨u, hu⟩ := hpre
      exact ⟨i, u, le_rfl, by rw [← hu, List.append_assoc]; rfl⟩
    · obtain ⟨j, u, hj, hx⟩ := pos_of_mem_listing rest h
      exact ⟨j, u, Nat.le_of_succ_le hj, hx⟩

theorem pos_of_mem_nodeItems : ∀ (node : Node) {x : Item} {pos : List ℕ}
    {path filename : List Char} {dType : DType},
    x ∈ ff.nodeItems pos path filename dType node → pos <+: x.pos
  | .dir canOpen entries, x, pos, path, filename, dType, h => by
    rw [nodeItems] at h
    split_ifs at h
    · refine pos_of_mem_dirItems ?_ h
      intro y hy
      obtain ⟨j, u, -, hx⟩ := pos_of_mem_listing entries hy
      exact ⟨j :: u, hx.symm⟩
    · cases h
  | .lnk target, x, pos, path, filename, dType, h => by
    rw [nodeItems] at h
    exact pos_of_mem_nodeItems target h
  | .dangling, x, pos, path, filename, dType, h => by
    rw [nodeItems] at h
    exact List.mem_singleton.1 h ▸ List.prefix_rfl
  | .reg, x, pos, path, filename, dType, h => by
    rw [nodeItems] at h
    exact List.mem_singleton.1 h ▸ List.prefix_rfl
  | .special kind, x, pos, path, filename, dType, h => by
    rw [nodeItems] at h
    cases h

end

theorem listing_cons {name : FileName} {isUnknown : Bool} {node : Node} {rest : Entries} {i : ℕ} :
    ff.listing dir pos (.cons name isUnknown node rest) i =
      (if name.isDot then []
        else if strbufSize ≤ (ff.fullPath dir name).length then
          [⟨pos ++ [i], .fault (.pathTooLong name.chars)⟩]
        else ff.entryItems (pos ++ [i]) (ff.fullPath dir name) name.chars isUnknown node) ++
      ff.listing dir pos rest (i + 1) := by
  rw [listing]
  rfl

theorem pos_of_mem_entryItems {x : Item} {isUnknown : Bool} {node : Node}
    (h : x ∈ ff.entryItems pos path filename isUnknown node) : pos <+: x.pos := by
  unfold entryItems at h
  split_ifs at h
  · exact pos_of_mem_nodeItems node h
  · exact List.mem_singleton.1 h ▸ List.prefix_rfl

theorem pos_of_mem_startListing {start : StartDir} {x : Item}
    (hx : x ∈ ff.startListing start) (hvisit : x.kind ≠ none) :
    ∃ j u, x.pos = j :: u := by
  rcases mem_openItems hx with h | rfl
  · obtain ⟨j, u, -, hpos⟩ := pos_of_mem_listing start.entries h
    exact ⟨j, u, hpos⟩
  · exact absurd rfl hvisit

end FindFiles

/-! ## Logs -/

theorem trace_append (log log' : WalkLog) :
    WalkLog.trace (log ++ log') = log.trace ++ log'.trace := List.filterMap_append

/-- The callbacks are the visits, with their answers. -/
theorem mem_trace_iff {log : WalkLog} {c : Event × VisitResult} :
    c ∈ log.trace ↔ ∃ p ∈ log, p.1.happening = .visit c.1 ∧ p.2 = c.2 := by
  rw [WalkLog.trace, List.mem_filterMap]
  refine exists_congr fun p => and_congr_right fun _ => ?_
  rcases p.1.happening with e | ex
  · simp [Prod.ext_iff]
  · simp

@[simp]
theorem trace_nil : WalkLog.trace [] = [] := rfl

@[simp]
theorem trace_cons_visitItem (pos : List ℕ) (path filename : List Char) (dType : DType)
    (kind : VisitKind) (vr : VisitResult) (log : WalkLog) :
    WalkLog.trace ((FindFiles.visitItem pos path filename dType kind, vr) :: log) =
      (⟨path, filename, pos.length, dType, kind⟩, vr) :: log.trace := rfl

theorem terminated_append (log log' : WalkLog) :
    WalkLog.terminated (log ++ log') = (log.terminated || log'.terminated) := List.any_append

/-- What the callback for an entry leaves in `stop` and `skip_sibs`. -/
def WalkLog.stopAndSkip (pos : List ℕ) (skipSibs : ℕ) (log : WalkLog) : Bool × ℕ :=
  (log.terminated, if log.skipsSiblings pos then pos.length else skipSibs)

namespace FindFiles

variable {path filename : List Char} {pos : List ℕ} {dType : DType} {kind : VisitKind}

@[simp]
theorem visitItem_pos : (visitItem pos path filename dType kind).pos = pos := rfl

@[simp]
theorem visitItem_kind : (visitItem pos path filename dType kind).kind = some kind := rfl

@[simp]
theorem visitItem_isPost :
    (visitItem pos path filename dType kind).isPost = (kind == .postVisitDirectory) := rfl

@[simp]
theorem visitItem_error : (visitItem pos path filename dType kind).error =
    .thrown ⟨path, filename, pos.length, dType, kind⟩ := rfl

theorem stopAndSkip_visitItem (path filename : List Char) (dType : DType) (skipSibs : ℕ)
    (vr : VisitResult) (hpos : pos ≠ []) (hkind : kind ≠ .postVisitDirectory) :
    WalkLog.stopAndSkip pos skipSibs [(visitItem pos path filename dType kind, vr)] =
      (vr == .terminate, if vr = .skipSiblings then pos.length else skipSibs) := by
  have hpost : (kind == VisitKind.postVisitDirectory) = false := by simpa using hkind
  simp [WalkLog.stopAndSkip, WalkLog.terminated, WalkLog.skipsSiblings, hpos, hpost]

end FindFiles

end Spartan
