import SpartanLauncher.WalkListing

/-!
# The walk as a pruned listing

**Theorem (`walkFileTree_eq`).** For every tree and every visitor, the walker makes just the
callbacks of the listing that the answers do not suppress. It throws where the pruned listing ends
early.
-/

namespace Spartan

open Pruning

/-! ## Steps of the walker -/

variable {t : Trace} {α β : Type}

@[simp]
theorem runOn_pure (a : α) : WalkM.runOn (pure a) t = (.ok a, t) := rfl

@[simp]
theorem runOn_throw (err : WalkError) : WalkM.runOn (throw err : WalkM α) t = (.error err, t) := rfl

@[simp]
theorem runOn_bind (m : WalkM α) (f : α → WalkM β) :
    WalkM.runOn (m >>= f) t =
      match m.runOn t with
      | (.ok a, t') => (f a).runOn t'
      | (.error err, t') => (.error err, t') := by
  show (ExceptT.bind m f) t = _
  simp only [ExceptT.bind, ExceptT.mk, bind, StateT.bind, WalkM.runOn]
  rcases m t with ⟨_ | a, t'⟩ <;> rfl

@[simp]
theorem runOn_callback (visitor : Visitor) (e : Event) :
    WalkM.runOn (visitor.callback e) t =
      match visitor t e with
      | none => (.error (.thrown e), t)
      | some vr => (.ok vr, t ++ [(e, vr)]) := by
  show WalkM.runOn (get >>= _) t = _
  rw [runOn_bind]
  show WalkM.runOn (match visitor t e with
    | none => _
    | some vr => _) t = _
  cases visitor t e <;> rfl

theorem runOn_report {visitor : Visitor} {skipSibs : ℕ} {e : Event} :
    WalkM.runOn (FindFiles.report visitor skipSibs e) t =
      match visitor t e with
      | none => (.error (.thrown e), t)
      | some vr =>
        (.ok (vr == .terminate, if vr = .skipSiblings then e.depth else skipSibs),
          t ++ [(e, vr)]) := by
  unfold FindFiles.report
  rw [runOn_bind, runOn_callback]
  cases visitor t e with
  | none => rfl
  | some vr => cases vr <;> rfl

/-! ## The walker goes along the listing -/

namespace FindFiles

variable {ff : FindFiles} {dir path filename : List Char} {pos : List ℕ} {dType : DType}

variable {visitor : Visitor} {log : WalkLog} {skipSibs : ℕ} {kind : VisitKind}

/-- Nothing at `pos` or below is suppressed. -/
def IsOpen (visitor : Visitor) (log : WalkLog) (pos : List ℕ) : Prop :=
  ∀ y : Item, pos <+: y.pos → ¬visitor.rule.Suppressed log y

theorem runOn_file (hpos : pos ≠ []) (hopen : IsOpen visitor log pos)
    (hkind : kind ≠ .postVisitDirectory) :
    WalkM.runOn (report visitor skipSibs ⟨path, filename, pos.length, dType, kind⟩) log.trace =
      log.outcome (visitor.rule.prune log [visitItem pos path filename dType kind])
        (WalkLog.stopAndSkip pos skipSibs) := by
  have hitem := hopen (visitItem pos path filename dType kind) List.prefix_rfl
  rw [runOn_report]
  cases ha : visitor log.trace ⟨path, filename, pos.length, dType, kind⟩ with
  | none =>
    rw [Rule.prune_cons_of_none hitem ha]
    simp [WalkLog.outcome]
  | some vr =>
    rw [Rule.prune_cons_of_some hitem ha]
    simp [WalkLog.outcome, trace_append,
      stopAndSkip_visitItem path filename dType skipSibs vr hpos hkind]

theorem isOpen_continue (hopen : IsOpen visitor log pos) (x : Item) :
    IsOpen visitor (log ++ [(x, .continue)]) pos := by
  intro y hy
  refine not_suppressed_append (hopen y hy) ?_
  simp

section Directory

variable {canOpen : Bool} {contents : List Item}

/-- With any answer but `CONTINUE`, the first callback is all that happens. -/
theorem prune_dirItems_of_skip {vr : VisitResult} (hpos : pos ≠ [])
    (hopen : IsOpen visitor log pos) (hvr : vr ≠ .continue)
    (hcontents : ∀ y ∈ contents, pos <+: y.pos)
    (ha : visitor.rule.ask log (preItem pos path filename) = some vr) :
    visitor.rule.prune log (dirItems pos path filename canOpen contents) =
      ([(preItem pos path filename, vr)], none) := by
  have hrest : ∀ y ∈ openItems pos path canOpen contents ++ [postItem pos path filename],
      visitor.rule.Suppressed (log ++ [(preItem pos path filename, vr)]) y := by
    intro y hy
    have hmem := List.mem_cons_of_mem (preItem pos path filename) hy
    rw [Rule.suppressed_append, Rule.suppressed_singleton]
    exact .inr (suppresses_of_pre hpos rfl hvr (pos_of_mem_dirItems hcontents hmem))
  rw [dirItems, Rule.prune_cons_of_some (hopen _ List.prefix_rfl) ha,
    Rule.prune_of_suppressed hrest]

theorem runOn_openDir (path : List Char) (canOpen : Bool) {walk : WalkM Bool}
    (hopen : IsOpen visitor log pos)
    (hwalk : walk.runOn log.trace =
      log.outcome (visitor.rule.prune log contents) WalkLog.terminated) :
    WalkM.runOn (do openDir path canOpen; walk) log.trace =
      log.outcome (visitor.rule.prune log (openItems pos path canOpen contents))
        WalkLog.terminated := by
  cases canOpen with
  | true => exact hwalk
  | false =>
    rw [openItems, if_neg Bool.false_ne_true,
      Rule.prune_cons_of_none (hopen _ List.prefix_rfl) rfl]
    simp [openDir, WalkLog.outcome, Item.error]

theorem inside_of_reported (hcontents : ∀ y ∈ contents, Inside pos y.pos)
    {p : Item × VisitResult}
    (hp : p ∈ (visitor.rule.prune log (openItems pos path canOpen contents)).1) :
    Inside pos p.1.pos := by
  rcases mem_openItems (Rule.mem_of_reported hp) with h | h
  · exact hcontents _ h
  · obtain ⟨log', ha⟩ := Rule.ask_of_reported hp
    rw [h] at ha
    cases ha

theorem skipsSiblings_of_inside {log : WalkLog} (h : ∀ p ∈ log, Inside pos p.1.pos) :
    log.skipsSiblings pos = false := by
  rw [WalkLog.skipsSiblings, List.any_eq_false]
  intro p hp
  simp [(h p hp).2.symm]

theorem not_suppressed_postItem (path filename : List Char) {inner : WalkLog}
    (hopen : IsOpen visitor log pos)
    (hinner : ∀ p ∈ inner, Inside pos p.1.pos) :
    ¬visitor.rule.Suppressed (log ++ inner) (postItem pos path filename) := by
  refine not_suppressed_append (hopen _ List.prefix_rfl) ?_
  intro p hp
  exact suppresses_post rfl (hinner p hp)

theorem stopAndSkip_dir (path filename : List Char) (vr : VisitResult) (skipSibs : ℕ)
    {inner : WalkLog} (hpos : pos ≠ [])
    (hinner : ∀ p ∈ inner, Inside pos p.1.pos) :
    WalkLog.stopAndSkip pos skipSibs
      ((preItem pos path filename, .continue) :: (inner ++ [(postItem pos path filename, vr)])) =
      (inner.terminated || vr == .terminate, skipSibs) := by
  have hskip := skipsSiblings_of_inside hinner
  unfold WalkLog.stopAndSkip WalkLog.terminated
  unfold WalkLog.skipsSiblings at hskip ⊢
  simp [List.any_append, hpos, hskip]

/-- **A directory** is walked along its part of the listing if its entries are. -/
theorem runOn_visitDir {walk : WalkM Bool} (hpos : pos ≠ []) (hopen : IsOpen visitor log pos)
    (hcontents : ∀ y ∈ contents, Inside pos y.pos)
    (hwalk : ∀ log' : WalkLog, IsOpen visitor log' pos → walk.runOn log'.trace =
      log'.outcome (visitor.rule.prune log' contents) WalkLog.terminated) :
    WalkM.runOn (visitDir visitor pos.length skipSibs path filename do
        openDir path canOpen
        walk) log.trace =
      log.outcome (visitor.rule.prune log (dirItems pos path filename canOpen contents))
        (WalkLog.stopAndSkip pos skipSibs) := by
  have hpre := hopen (preItem pos path filename) List.prefix_rfl
  unfold visitDir
  rw [runOn_bind, runOn_callback]
  cases ha : visitor log.trace ⟨path, filename, pos.length, .dir, .preVisitDirectory⟩ with
  | none =>
    rw [dirItems, Rule.prune_cons_of_none hpre ha]
    simp [WalkLog.outcome]
  | some vr =>
    by_cases hvr : vr = .continue
    · subst hvr
      have hopen₁ := isOpen_continue hopen (preItem pos path filename)
      have hinside := runOn_openDir path canOpen hopen₁ (hwalk _ hopen₁)
      have hreported : ∀ p ∈ (visitor.rule.prune (log ++ [(preItem pos path filename, .continue)])
          (openItems pos path canOpen contents)).1, Inside pos p.1.pos :=
        fun p hp => inside_of_reported hcontents hp
      rw [trace_append] at hinside
      show WalkM.runOn (_ >>= _) (log.trace ++ WalkLog.trace [(preItem pos path filename, _)]) = _
      rw [runOn_bind, hinside, dirItems, Rule.prune_cons_of_some hpre ha]
      rcases hr : visitor.rule.prune (log ++ [(preItem pos path filename, .continue)])
        (openItems pos path canOpen contents) with ⟨inner, _ | y⟩
      · rw [hr] at hreported
        have hpost := not_suppressed_postItem path filename hopen₁ hreported
        rw [Rule.prune_append (by rw [hr]), hr]
        simp only [WalkLog.outcome, runOn_bind, runOn_callback]
        cases ha₂ : visitor
          (WalkLog.trace (log ++ [(preItem pos path filename, .continue)] ++ inner))
          ⟨path, filename, pos.length, .dir, .postVisitDirectory⟩ with
        | none =>
          rw [Rule.prune_cons_of_none hpost ha₂]
          simp [Item.error, postItem, visitItem]
        | some vr₂ =>
          rw [Rule.prune_cons_of_some hpost ha₂]
          have hleft := stopAndSkip_dir path filename vr₂ skipSibs hpos hreported
          cases vr₂ <;> simp_all [trace_append]
      · rw [Rule.prune_append_of_some (by rw [hr]), hr]
        simp [WalkLog.outcome]
    · rw [prune_dirItems_of_skip hpos hopen hvr (fun y hy => (hcontents y hy).1) ha]
      have hleft := stopAndSkip_visitItem path filename .dir skipSibs vr hpos
        (show VisitKind.preVisitDirectory ≠ _ by decide)
      cases vr <;> simp_all [WalkLog.outcome, trace_append]

end Directory

/-! ## Entries behind an entry -/

/-- Nothing in the directory at `pos` is suppressed from the entry with the index `i`. -/
def IsOpenFrom (visitor : Visitor) (log : WalkLog) (pos : List ℕ) (i : ℕ) : Prop :=
  ∀ (y : Item) (j : ℕ) (u : List ℕ), i ≤ j → y.pos = pos ++ j :: u → ¬visitor.rule.Suppressed log y

theorem IsOpen.from {i : ℕ} (hopen : IsOpen visitor log pos) : IsOpenFrom visitor log pos i := by
  intro y j u _ hy
  exact hopen y ⟨j :: u, hy.symm⟩

theorem IsOpenFrom.entry {i : ℕ} (hopen : IsOpenFrom visitor log pos i) :
    IsOpen visitor log (pos ++ [i]) := by
  intro y hy
  obtain ⟨u, hu⟩ := hy
  exact hopen y i u le_rfl (by rw [← hu, List.append_assoc]; rfl)

theorem walkEntries_of_stop {depth : ℕ} {es : Entries} :
    walkEntries ff visitor depth dir es skipSibs true = pure true := by
  cases es <;> rfl

theorem walkEntries_of_skip : ∀ (es : Entries) (depth : ℕ),
    walkEntries ff visitor depth dir es depth false = pure false
  | .nil, _ => rfl
  | .cons name isUnknown node rest, depth => by
    rw [walkEntries, if_neg Bool.false_ne_true, if_pos (.inl rfl)]
    exact walkEntries_of_skip rest depth

section Rest

variable {i : ℕ} {inner : WalkLog}

theorem suppressed_of_terminated (hinner : ∀ p ∈ inner, pos ++ [i] <+: p.1.pos)
    (hterm : inner.terminated = true) {es : Entries} :
    ∀ y ∈ ff.listing dir pos es (i + 1), visitor.rule.Suppressed (log ++ inner) y := by
  intro y hy
  obtain ⟨j, v, hj, hv⟩ := pos_of_mem_listing es hy
  obtain ⟨p, hp, hvr⟩ := List.any_eq_true.1 hterm
  obtain ⟨u, hu⟩ := hinner p hp
  simp only [Bool.and_eq_true, beq_iff_eq] at hvr
  refine ⟨p, List.mem_append_right log hp, ?_⟩
  rw [hvr.2]
  exact suppresses_sibling_of_terminate (by rw [← hu, List.append_assoc]; rfl) hv (by omega)

theorem suppressed_of_skipsSiblings (hskip : inner.skipsSiblings (pos ++ [i]) = true)
    {es : Entries} :
    ∀ y ∈ ff.listing dir pos es (i + 1), visitor.rule.Suppressed (log ++ inner) y := by
  intro y hy
  obtain ⟨j, v, hj, hv⟩ := pos_of_mem_listing es hy
  obtain ⟨p, hp, hvr⟩ := List.any_eq_true.1 hskip
  simp only [Bool.and_eq_true, beq_iff_eq, decide_eq_true_eq, Bool.not_eq_true'] at hvr
  refine ⟨p, List.mem_append_right log hp, ?_⟩
  rw [hvr.2]
  exact suppresses_sibling_of_skip hvr.1.1 hv hvr.1.2

theorem isOpenFrom_append (hinner : ∀ p ∈ inner, pos ++ [i] <+: p.1.pos)
    (hopen : IsOpenFrom visitor log pos i)
    (hterm : inner.terminated = false) (hskip : inner.skipsSiblings (pos ++ [i]) = false) :
    IsOpenFrom visitor (log ++ inner) pos (i + 1) := by
  intro y j v hj hv
  refine not_suppressed_append (hopen y j v (Nat.le_of_succ_le hj) hv) ?_
  intro p hp
  obtain ⟨u, hu⟩ := hinner p hp
  have hpos : p.1.pos = pos ++ i :: u := by rw [← hu, List.append_assoc]; rfl
  have hvr := List.any_eq_false.1 hterm p hp
  have hsib := List.any_eq_false.1 hskip p hp
  refine not_suppresses_sibling hpos hv (by omega) ?_ ?_
  · intro hvr'
    simp [hpos, hvr'] at hvr
  · intro hsib'
    simp [hsib'] at hsib

/-- **The loop goes on** behind an entry just when the rest of the listing is not suppressed. -/
theorem runOn_rest {rest : Entries} (hinner : ∀ p ∈ inner, pos ++ [i] <+: p.1.pos)
    (hopen : IsOpenFrom visitor log pos i)
    (ih : IsOpenFrom visitor (log ++ inner) pos (i + 1) →
      WalkM.runOn (walkEntries ff visitor (pos.length + 1) dir rest skipSibs false)
          (WalkLog.trace (log ++ inner)) =
        WalkLog.outcome (log ++ inner)
          (visitor.rule.prune (log ++ inner) (ff.listing dir pos rest (i + 1)))
          WalkLog.terminated) :
    WalkM.runOn (walkEntries ff visitor (pos.length + 1) dir rest
        (WalkLog.stopAndSkip (pos ++ [i]) skipSibs inner).2
        (WalkLog.stopAndSkip (pos ++ [i]) skipSibs inner).1) (WalkLog.trace (log ++ inner)) =
      WalkLog.outcome (log ++ inner)
        (visitor.rule.prune (log ++ inner) (ff.listing dir pos rest (i + 1)))
        fun new => WalkLog.terminated (inner ++ new) := by
  unfold WalkLog.stopAndSkip
  cases hterm : inner.terminated with
  | true =>
    rw [walkEntries_of_stop, Rule.prune_of_suppressed (suppressed_of_terminated hinner hterm)]
    simp [WalkLog.outcome, hterm]
  | false =>
    cases hskip : inner.skipsSiblings (pos ++ [i]) with
    | true =>
      rw [Rule.prune_of_suppressed (suppressed_of_skipsSiblings hskip)]
      simp [WalkLog.outcome, hterm, walkEntries_of_skip]
    | false =>
      simp only [Bool.false_eq_true, if_false]
      rw [ih (isOpenFrom_append hinner hopen hterm hskip)]
      simp [WalkLog.outcome, terminated_append, hterm]

end Rest

/-! ## All entries -/

/-- What the loop does with an entry, in terms of `resolves`. -/
def visitEntry (ff : FindFiles) (visitor : Visitor) (depth skipSibs : ℕ)
    (path filename : List Char) (isUnknown : Bool) (node : Node) : WalkM (Bool × ℕ) :=
  if ff.resolves (node.reported isUnknown) then
    visitStat ff visitor depth skipSibs path filename (node.reported isUnknown) node
  else visitFile visitor depth skipSibs path filename (node.reported isUnknown)

theorem visitEntry_eq (depth : ℕ) (isUnknown : Bool) (node : Node) :
    (if isUnknown then visitStat ff visitor depth skipSibs path filename .unknown node
      else visitNode ff visitor depth skipSibs path filename node) =
    visitEntry ff visitor depth skipSibs path filename isUnknown node := by
  cases isUnknown <;> cases node <;>
    simp [visitEntry, visitNode, visitStat, resolves, Node.reported, Node.dType]

theorem walkEntries_cons {depth : ℕ} {stop : Bool} {name : FileName} {isUnknown : Bool}
    {node : Node} {rest : Entries} :
    walkEntries ff visitor depth dir (.cons name isUnknown node rest) skipSibs stop =
      if stop then pure stop
      else if depth = skipSibs ∨ name.isDot then
        walkEntries ff visitor depth dir rest skipSibs stop
      else if strbufSize ≤ (ff.fullPath dir name).length then
        throw (.exception (.pathTooLong name.chars))
      else
        visitEntry ff visitor depth skipSibs (ff.fullPath dir name) name.chars isUnknown node >>=
          fun r => walkEntries ff visitor depth dir rest r.2 r.1 := by
  rw [walkEntries, ← visitEntry_eq]

theorem runOn_visitEntry (path filename : List Char) (skipSibs : ℕ) (isUnknown : Bool)
    {node : Node} (hpos : pos ≠ []) (hopen : IsOpen visitor log pos)
    (hnode : WalkM.runOn (visitStat ff visitor pos.length skipSibs path filename
        (node.reported isUnknown) node) log.trace =
      log.outcome
        (visitor.rule.prune log (ff.nodeItems pos path filename (node.reported isUnknown) node))
        (WalkLog.stopAndSkip pos skipSibs)) :
    WalkM.runOn (visitEntry ff visitor pos.length skipSibs path filename isUnknown node) log.trace =
      log.outcome (visitor.rule.prune log (ff.entryItems pos path filename isUnknown node))
        (WalkLog.stopAndSkip pos skipSibs) := by
  rw [visitEntry, entryItems]
  split_ifs
  · exact hnode
  · exact runOn_file hpos hopen (by decide)

mutual

/-- **The loop** over the entries of a directory goes along its listing. -/
theorem runOn_walkEntries : ∀ (es : Entries) {dir : List Char} {pos : List ℕ} {log : WalkLog}
    {skipSibs i : ℕ}, skipSibs ≠ pos.length + 1 → IsOpenFrom visitor log pos i →
    WalkM.runOn (walkEntries ff visitor (pos.length + 1) dir es skipSibs false) log.trace =
      log.outcome (visitor.rule.prune log (ff.listing dir pos es i)) WalkLog.terminated
  | .nil, dir, pos, log, skipSibs, i, _, _ => by
    simp [walkEntries, listing, WalkLog.outcome, WalkLog.terminated]
  | .cons name isUnknown node rest, dir, pos, log, skipSibs, i, hskipSibs, hopen => by
    have hlen : (pos ++ [i]).length = pos.length + 1 := by simp
    rw [walkEntries_cons, listing_cons, if_neg Bool.false_ne_true]
    by_cases hdot : name.isDot = true
    · rw [if_pos (.inr hdot), if_pos hdot, List.nil_append]
      exact runOn_walkEntries rest hskipSibs fun y j u hj => hopen y j u (Nat.le_of_succ_le hj)
    rw [if_neg (not_or.2 ⟨hskipSibs.symm, hdot⟩), if_neg hdot]
    by_cases hlong : strbufSize ≤ (ff.fullPath dir name).length
    · rw [if_pos hlong, if_pos hlong, List.singleton_append,
        Rule.prune_cons_of_none (hopen.entry _ List.prefix_rfl) rfl]
      simp [WalkLog.outcome, Item.error]
    rw [if_neg hlong, if_neg hlong]
    have hentry := runOn_visitEntry (ff.fullPath dir name) name.chars skipSibs isUnknown
      (by simp) hopen.entry (runOn_visitStat node (by simp) hopen.entry)
    rw [hlen] at hentry
    rw [runOn_bind, hentry]
    rcases hr : visitor.rule.prune log
      (ff.entryItems (pos ++ [i]) (ff.fullPath dir name) name.chars isUnknown node)
      with ⟨inner, _ | y⟩
    · have hinner : ∀ p ∈ inner, pos ++ [i] <+: p.1.pos := fun p hp =>
        pos_of_mem_entryItems (Rule.mem_of_reported (by rw [hr]; exact hp))
      rw [Rule.prune_append (by rw [hr]), hr]
      exact (runOn_rest hinner hopen (runOn_walkEntries rest hskipSibs)).trans
        (by simp [WalkLog.outcome])
    · rw [Rule.prune_append_of_some (by rw [hr]), hr]
      simp [WalkLog.outcome]

theorem runOn_visitStat : ∀ (node : Node) {pos : List ℕ} {path filename : List Char}
    {dType : DType} {log : WalkLog} {skipSibs : ℕ}, pos ≠ [] → IsOpen visitor log pos →
    WalkM.runOn (visitStat ff visitor pos.length skipSibs path filename dType node) log.trace =
      log.outcome (visitor.rule.prune log (ff.nodeItems pos path filename dType node))
        (WalkLog.stopAndSkip pos skipSibs)
  | .dir canOpen entries, pos, path, filename, dType, log, skipSibs, hpos, hopen => by
    rw [visitStat, nodeItems]
    split_ifs
    · refine runOn_visitDir hpos hopen ?_ ?_
      · intro y hy
        obtain ⟨j, u, -, hx⟩ := pos_of_mem_listing entries hy
        exact hx ▸ inside_append (by simp)
      · intro log' hopen'
        exact runOn_walkEntries entries (by simp) hopen'.from
    · simp [WalkLog.outcome, WalkLog.stopAndSkip, WalkLog.terminated, WalkLog.skipsSiblings]
  | .lnk target, pos, path, filename, dType, log, skipSibs, hpos, hopen => by
    rw [visitStat, nodeItems]
    exact runOn_visitStat target hpos hopen
  | .dangling, pos, path, filename, dType, log, skipSibs, hpos, hopen => by
    rw [visitStat, nodeItems]
    exact runOn_file hpos hopen (by decide)
  | .reg, pos, path, filename, dType, log, skipSibs, hpos, hopen => by
    rw [visitStat, nodeItems]
    exact runOn_file hpos hopen (by decide)
  | .special kind, pos, path, filename, dType, log, skipSibs, hpos, hopen => by
    rw [visitStat, nodeItems]
    simp [WalkLog.outcome, WalkLog.stopAndSkip, WalkLog.terminated, WalkLog.skipsSiblings]

end

theorem isOpen_start {start : StartDir} {vr : VisitResult} :
    IsOpen visitor [(startItem start, vr)] [] := by
  intro y _
  apply not_suppressed_of_forall
  intro p hp
  rw [List.mem_singleton.1 hp]
  exact suppresses_of_start rfl

/-- **The walk is the pruned listing.** The walker makes the callbacks of the listing that the
answers leave over, and returns or throws as it ends. -/
theorem walkFileTree_eq (start : StartDir) :
    ff.walkFileTree visitor start =
      WalkLog.outcome [] (ff.pruned visitor.rule start) WalkLog.terminated := by
  have hstart : ¬visitor.rule.Suppressed [] (startItem start) := by simp [Rule.Suppressed]
  unfold walkFileTree pruned
  rw [runOn_bind, runOn_callback]
  cases ha : visitor [] (startEvent start) with
  | none =>
    rw [Rule.prune_cons_of_none hstart ha]
    rfl
  | some vr =>
    have hwalk : WalkM.runOn (walkEntries ff visitor 1 start.path start.entries 0 false)
        (WalkLog.trace [(startItem start, vr)]) =
        WalkLog.outcome [(startItem start, vr)]
          (visitor.rule.prune [(startItem start, vr)] (ff.listing start.path [] start.entries 0))
          WalkLog.terminated :=
      runOn_walkEntries start.entries (by simp) isOpen_start.from
    have hlist := runOn_openDir start.path start.canOpen isOpen_start hwalk
    rw [Rule.prune_cons_of_some hstart ha]
    refine hlist.trans ?_
    simp [WalkLog.outcome, startListing, WalkLog.terminated, startItem]

end FindFiles

/-! ## The callbacks of a pruned listing -/

/-- The callbacks of a pruned listing. -/
def prunedCalls (pruned : WalkLog × Option Item) : List (Event × Option VisitResult) :=
  (WalkLog.trace pruned.1).map (fun c => (c.1, some c.2)) ++
    match pruned.2 with
    | some ⟨_, .visit e⟩ => [(e, none)]
    | _ => []

theorem callbacks_outcome (pruned : WalkLog × Option Item) (value : WalkLog → Bool) :
    callbacks (WalkLog.outcome [] pruned value) = prunedCalls pruned := by
  rcases pruned with ⟨log, _ | ⟨pos, e | ex⟩⟩ <;> rfl

theorem visit_of_reported {visitor : Visitor} {log : WalkLog} {l : List Item}
    {p : Item × VisitResult} (hp : p ∈ (visitor.rule.prune log l).1) :
    ∃ e, p.1.happening = .visit e := by
  obtain ⟨log', ha⟩ := Rule.ask_of_reported hp
  rcases hx : p.1.happening with e | ex
  · exact ⟨e, rfl⟩
  · simp [Visitor.rule, hx] at ha

theorem exists_of_mem_prunedCalls {visitor : Visitor} {log : WalkLog} {l : List Item}
    {c : Event × Option VisitResult} (hc : c ∈ prunedCalls (visitor.rule.prune log l)) :
    ∃ x ∈ l, x.happening = .visit c.1 := by
  rcases List.mem_append.1 hc with hc | hc
  · obtain ⟨d, hd, rfl⟩ := List.mem_map.1 hc
    obtain ⟨p, hp, hvisit, -⟩ := mem_trace_iff.1 hd
    exact ⟨p.1, Rule.mem_of_reported hp, hvisit⟩
  · rcases hend : (visitor.rule.prune log l).2 with _ | ⟨pos, e | ex⟩
    · rw [hend] at hc
      cases hc
    · rw [hend] at hc
      rw [List.mem_singleton.1 hc]
      exact ⟨_, Rule.mem_of_not_answered hend, rfl⟩
    · rw [hend] at hc
      cases hc

end Spartan
