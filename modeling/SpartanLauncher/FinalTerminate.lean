import SpartanLauncher.WalkFileTree

/-!
# What `TERMINATE` ends

A visitor that answers `TERMINATE` expects no further callback.

**Theorem (`terminate_final_iff`).** A walk ends at the first `TERMINATE` exactly when that is the
answer for an entry of the start directory itself, or the answer for the start directory, and there
is nothing in it to report. Further down, the directories around still get their second callback.
-/

namespace Spartan

open Pruning

/-- Nothing is called behind `TERMINATE`. -/
def TerminateIsFinal (calls : List (Event × Option VisitResult)) : Prop :=
  ∀ pre c post, calls = pre ++ c :: post → c.2 = some .terminate → post = []

/-- In the walk that `TERMINATE` ends, it is the answer for an entry of the start directory, or for
the start directory when that has no first entry to report. -/
def FindFiles.StopsInTime (ff : FindFiles) (visitor : Visitor) (start : StartDir) : Prop :=
  ∀ p ∈ (ff.pruned (visitor.rule.withFinal .terminate) start).1, p.2 = .terminate →
    p.1.pos.length = 1 ∨ p.1.pos = [] ∧ ∀ x ∈ (ff.startListing start).head?, x.kind = none

/-! ## The callbacks of a pruned listing -/

variable {visitor : Visitor} {log answers : WalkLog} {l l₁ l₂ : List Item} {x y : Item}

theorem kind_eq_none_iff : x.kind = none ↔ ∃ ex, x.happening = .fault ex := by
  rcases x with ⟨pos, e | ex⟩ <;> simp [Item.kind]

theorem prunedCalls_eq_nil_iff :
    prunedCalls (visitor.rule.prune log l) = [] ↔
      (visitor.rule.prune log l).1 = [] ∧ ∀ x ∈ (visitor.rule.prune log l).2, x.kind = none := by
  refine ⟨?_, ?_⟩
  · intro h
    obtain ⟨htrace, hend⟩ := List.append_eq_nil_iff.1 h
    refine ⟨?_, ?_⟩
    · rw [List.eq_nil_iff_forall_not_mem]
      intro p hp
      obtain ⟨e, he⟩ := visit_of_reported hp
      have hmem : (e, p.2) ∈ WalkLog.trace (visitor.rule.prune log l).1 :=
        mem_trace_iff.2 ⟨p, hp, he, rfl⟩
      rw [List.map_eq_nil_iff.1 htrace] at hmem
      cases hmem
    · intro x hx
      rcases x with ⟨pos, e | ex⟩
      · rw [Option.mem_def.1 hx] at hend
        cases hend
      · rfl
  · intro h
    unfold prunedCalls
    rw [h.1]
    rcases hend : (visitor.rule.prune log l).2 with _ | ⟨pos, e | ex⟩
    · rfl
    · cases h.2 _ hend
    · rfl

/-- A visit that is not suppressed is a callback, or another item is. -/
theorem prunedCalls_ne_nil (hvisit : ∀ y ∈ l, ¬visitor.rule.Suppressed log y → y.kind ≠ none)
    (h : ∃ y ∈ l, ¬visitor.rule.Suppressed log y) :
    prunedCalls (visitor.rule.prune log l) ≠ [] := by
  intro hnil
  obtain ⟨hlog, hend⟩ := prunedCalls_eq_nil_iff.1 hnil
  obtain ⟨y, hy, hnot, rest, hasked⟩ := Rule.asked_ne_nil h
  rw [Rule.asked, hlog, List.map_nil, List.nil_append] at hasked
  rcases hfirst : (visitor.rule.prune log l).2 with _ | z
  · rw [hfirst] at hasked
    cases hasked
  · rw [hfirst] at hasked
    obtain ⟨rfl, -⟩ := List.cons.inj hasked
    exact hvisit z hy hnot (hend z hfirst)

theorem terminate_of_mem_prunedCalls {pruned : WalkLog × Option Item}
    {c : Event × Option VisitResult} (hc : c ∈ prunedCalls pruned)
    (hterm : c.2 = some .terminate) : ∃ p ∈ pruned.1, p.2 = .terminate := by
  rcases List.mem_append.1 hc with hc | hc
  · obtain ⟨d, hd, rfl⟩ := List.mem_map.1 hc
    obtain ⟨p, hp, -, hvr⟩ := mem_trace_iff.1 hd
    exact ⟨p, hp, hvr.trans (Option.some.inj hterm)⟩
  · rcases pruned with ⟨log, _ | ⟨pos, e | ex⟩⟩
    · cases hc
    · rw [List.mem_singleton.1 hc] at hterm
      cases hterm
    · cases hc

/-- A report takes its place among the callbacks. -/
theorem prunedCalls_append {e : Event} {vr : VisitResult} (hx : x.happening = .visit e)
    (answers : WalkLog) (new : WalkLog × Option Item) :
    prunedCalls (answers ++ (x, vr) :: new.1, new.2) =
      prunedCalls (answers, none) ++ (e, some vr) :: prunedCalls new := by
  rcases x with ⟨pos, _⟩
  obtain rfl := hx
  simp only [prunedCalls, trace_append, List.map_append, List.append_assoc, List.append_nil]
  rfl

theorem kind_of_reported {p : Item × VisitResult} (hp : p ∈ (visitor.rule.prune log l).1) :
    p.1.kind ≠ none := by
  obtain ⟨e, he⟩ := visit_of_reported hp
  simp [Item.kind, he]

theorem terminateIsFinal_iff {pre post : List (Event × Option VisitResult)}
    {c : Event × Option VisitResult} (hpre : ∀ d ∈ pre, d.2 ≠ some .terminate)
    (hc : c.2 = some .terminate) : TerminateIsFinal (pre ++ c :: post) ↔ post = [] := by
  refine ⟨?_, ?_⟩
  · intro h
    exact h pre c post rfl hc
  · rintro rfl pre' d post' heq hd
    exact Pruning.eq_nil_of_last hpre heq hd

/-! ## Directories are left -/

/-- Whatever suppresses the second callback of a directory suppresses everything inside of it,
except for `TERMINATE`. -/
theorem suppresses_of_suppresses_post {p : Item} {vr : VisitResult} (hvr : vr ≠ .terminate)
    (hin : Inside y.pos x.pos) (h : p.suppresses vr y = true) : p.suppresses vr x = true := by
  cases vr with
  | «continue» => simp at h
  | terminate => exact absurd rfl hvr
  | skipSubtree =>
    simp only [Item.suppresses, Bool.and_eq_true, decide_eq_true_eq] at h ⊢
    exact ⟨h.1, h.2.1, h.2.2.trans hin.1⟩
  | skipSiblings =>
    simp only [Item.suppresses, Bool.and_eq_true, decide_eq_true_eq] at h ⊢
    refine ⟨h.1, h.2.1, h.2.2.1.trans hin.1, ?_⟩
    intro heq
    have hlt := h.2.2.length_lt
    rw [heq] at hlt
    exact absurd hin.1.length_le (not_le_of_gt hlt)

namespace FindFiles

variable {ff : FindFiles}

/-- Behind everything inside of a directory comes its second callback. -/
theorem exists_post_of_inside : ∀ (node : Node) {pos : List ℕ} {path filename : List Char}
    {dType : DType}, ff.nodeItems pos path filename dType node = l₁ ++ x :: l₂ → x.pos ≠ pos →
    ∃ y ∈ l₂, y.isPost = true ∧ y.pos = pos
  | .dir canOpen entries, pos, path, filename, dType, h, hx => by
    rw [nodeItems] at h
    split_ifs at h
    · rw [dirItems, ← List.cons_append] at h
      refine ⟨postItem pos path filename, Pruning.mem_of_last h ?_, rfl, rfl⟩
      rintro rfl
      exact hx rfl
    · simp at h
  | .lnk target, pos, path, filename, dType, h, hx => by
    rw [nodeItems] at h
    exact exists_post_of_inside target h hx
  | .dangling, pos, path, filename, dType, h, hx => by
    rw [nodeItems] at h
    exact absurd (congrArg Item.pos (Pruning.eq_of_singleton h)) hx
  | .reg, pos, path, filename, dType, h, hx => by
    rw [nodeItems] at h
    exact absurd (congrArg Item.pos (Pruning.eq_of_singleton h)) hx
  | .special kind, pos, path, filename, dType, h, hx => by
    rw [nodeItems] at h
    simp at h

theorem exists_post_of_entry {isUnknown : Bool} {node : Node} {pos : List ℕ}
    {path filename : List Char}
    (h : ff.entryItems pos path filename isUnknown node = l₁ ++ x :: l₂) (hx : x.pos ≠ pos) :
    ∃ y ∈ l₂, y.isPost = true ∧ y.pos = pos := by
  unfold entryItems at h
  split_ifs at h
  · exact exists_post_of_inside node h hx
  · exact absurd (congrArg Item.pos (Pruning.eq_of_singleton h)) hx

/-- Below the entries of a directory, each item is followed by the second callback of one. -/
theorem exists_post_of_listing : ∀ (es : Entries) {dir : List Char} {pos : List ℕ} {i : ℕ}
    {l₁ l₂ : List Item} {x : Item} {j : ℕ} {u : List ℕ},
    ff.listing dir pos es i = l₁ ++ x :: l₂ → x.pos = pos ++ j :: u → u ≠ [] →
    ∃ y ∈ l₂, y.isPost = true ∧ Inside y.pos x.pos
  | .nil, _, _, _, _, _, _, _, _, h, _, _ => by
    rw [listing] at h
    simp at h
  | .cons name isUnknown node rest, dir, pos, i, l₁, l₂, x, j, u, h, hx, hu => by
    rw [listing_cons] at h
    rcases List.append_eq_append_iff.1 h with ⟨m, hm, hrest⟩ | ⟨m, hentry, hm⟩
    · exact exists_post_of_listing rest hrest hx hu
    · rcases m with _ | ⟨z, m⟩
      · exact exists_post_of_listing rest
          (show ff.listing dir pos rest (i + 1) = [] ++ x :: l₂ from hm.symm) hx hu
      · obtain ⟨rfl, rfl⟩ := List.cons.inj hm
        split_ifs at hentry
        · simp at hentry
        · have hpos := congrArg Item.pos (Pruning.eq_of_singleton hentry)
          rw [hx] at hpos
          simp [hu] at hpos
        · have hbelow : pos ++ [i] <+: x.pos := by
            apply pos_of_mem_entryItems
            rw [hentry]
            simp
          have hne : x.pos ≠ pos ++ [i] := by
            intro heq
            exact hu (List.cons.inj (List.append_cancel_left (hx.symm.trans heq))).2
          obtain ⟨y, hy, hpost, hpos⟩ := exists_post_of_entry hentry hne
          refine ⟨y, List.mem_append_left _ hy, hpost, ?_⟩
          rw [hpos]
          exact ⟨hbelow, hne.symm⟩

/-! ## Behind `TERMINATE` -/

variable {start : StartDir}

/-- Behind the answer for the start directory, the first item is asked in any case. -/
theorem calls_behind_start {vr : VisitResult} :
    prunedCalls (visitor.rule.prune [(startItem start, vr)] l) = [] ↔
      ∀ y ∈ l.head?, y.kind = none := by
  have hnot : ∀ y, ¬visitor.rule.Suppressed [(startItem start, vr)] y := by
    intro y
    exact isOpen_start y y.pos.nil_prefix
  rw [prunedCalls_eq_nil_iff]
  rcases l with _ | ⟨y, l⟩
  · simp
  · cases ha : visitor.rule.ask [(startItem start, vr)] y with
    | none =>
      rw [Rule.prune_cons_of_none (hnot y) ha]
      simp
    | some a =>
      have hvisit : y.kind ≠ none := by
        intro hnone
        obtain ⟨ex, hex⟩ := kind_eq_none_iff.1 hnone
        simp [Visitor.rule, hex] at ha
      rw [Rule.prune_cons_of_some (hnot y) ha]
      simp [hvisit]

/-- Behind an answer for an entry of the start directory nothing is left. -/
theorem calls_behind_entry {j : ℕ} (hx : x.pos = [j])
    (hl : ∀ y ∈ l, y.kind ≠ none → y.pos ≠ []) :
    visitor.rule.prune (answers ++ [(x, .terminate)]) l = ([], none) := by
  apply Rule.prune_of_suppressed
  intro y hy
  refine ⟨(x, .terminate), by simp, ?_⟩
  have hnot : ¬(y.isPost = true ∧ Inside y.pos x.pos) := by
    intro h
    have hkind : y.kind ≠ none := by
      rw [beq_iff_eq.1 h.1]
      exact Option.some_ne_none _
    have hlt := h.2.length_lt
    rw [hx, List.length_singleton, Nat.lt_one_iff, List.length_eq_zero_iff] at hlt
    exact hl y hy hkind hlt
  exact (suppresses_terminate_iff (by simp [hx])).2 hnot

/-- Behind an answer further down, the directory around is still left. -/
theorem calls_behind_inside (hpos : x.pos ≠ []) (hx : ¬visitor.rule.Suppressed answers x)
    (hterm : ∀ p ∈ answers, p.2 ≠ .terminate)
    (hpost : ∃ y ∈ l, y.isPost = true ∧ Inside y.pos x.pos) :
    prunedCalls (visitor.rule.prune (answers ++ [(x, .terminate)]) l) ≠ [] := by
  apply prunedCalls_ne_nil
  · intro y _ hnot
    have hkind : y.isPost = true := by
      by_contra hkind
      exact hnot ⟨(x, .terminate), by simp, (suppresses_terminate_iff hpos).2 fun h => hkind h.1⟩
    rw [beq_iff_eq.1 hkind]
    exact Option.some_ne_none _
  · obtain ⟨y, hy, hpost, hin⟩ := hpost
    refine ⟨y, hy, not_suppressed_append ?_ ?_⟩
    · rintro ⟨p, hp, h⟩
      exact hx ⟨p, hp, suppresses_of_suppresses_post (hterm p hp) hin h⟩
    · intro p hp
      rw [List.mem_singleton.1 hp]
      exact suppresses_post hpost hin

theorem calls_behind_iff (hsplit : startItem start :: ff.startListing start = l₁ ++ x :: l₂)
    (hanswers : (answers.map Prod.fst).Sublist l₁) (hx : ¬visitor.rule.Suppressed answers x)
    (hvisit : x.kind ≠ none) (hterm : ∀ p ∈ answers, p.2 ≠ .terminate) :
    prunedCalls (visitor.rule.prune (answers ++ [(x, .terminate)]) l₂) = [] ↔
      x.pos.length = 1 ∨ x.pos = [] ∧ ∀ y ∈ (ff.startListing start).head?, y.kind = none := by
  rcases l₁ with _ | ⟨z, l₁⟩
  · obtain ⟨rfl, rfl⟩ := List.cons.inj hsplit
    rw [List.map_eq_nil_iff.1 (List.sublist_nil.1 hanswers), List.nil_append, calls_behind_start]
    simp [startItem]
  · obtain ⟨rfl, hlist⟩ := List.cons.inj hsplit
    have hmem : x ∈ ff.startListing start := by
      rw [hlist]
      simp
    obtain ⟨j, u, hpos⟩ := pos_of_mem_startListing hmem hvisit
    rcases eq_or_ne u [] with rfl | hu
    · have hl₂ : ∀ y ∈ l₂, y.kind ≠ none → y.pos ≠ [] := by
        intro y hy hkind
        have hmem : y ∈ ff.startListing start := by
          rw [hlist]
          simp [hy]
        obtain ⟨i, v, hv⟩ := pos_of_mem_startListing hmem hkind
        simp [hv]
      rw [calls_behind_entry hpos hl₂, hpos]
      simp [prunedCalls]
    · have hopen : ff.listing start.path [] start.entries 0 = l₁ ++ x :: l₂ := by
        unfold startListing openItems at hlist
        split_ifs at hlist
        · exact hlist
        · exact absurd (congrArg Item.kind (Pruning.eq_of_singleton hlist)) hvisit
      have hpost := exists_post_of_listing start.entries hopen hpos hu
      have hne : x.pos ≠ [] := by simp [hpos]
      have hlen : x.pos.length ≠ 1 := by simpa [hpos] using hu
      simp [calls_behind_inside hne hx hterm hpost, hlen, hne]

/-- **`TERMINATE` ends the walk** just when it is answered for an entry of the start directory, or
for an empty start directory. -/
theorem terminate_final_iff :
    TerminateIsFinal (callbacks (ff.walkFileTree visitor start)) ↔
      ff.StopsInTime visitor start := by
  rw [walkFileTree_eq, callbacks_outcome, StopsInTime]
  unfold pruned
  rcases Rule.prune_of_final visitor.rule (startItem start :: ff.startListing start)
    (show ∀ p ∈ ([] : WalkLog), p.2 ≠ VisitResult.terminate by simp) with
    ⟨hnone, heq⟩ | ⟨l₁, x, l₂, answers, hsplit, hsub, hterm, hx, hfin, heq⟩
  · rw [heq]
    refine ⟨?_, ?_⟩
    · intro _ p hp hvr
      exact absurd hvr (hnone p hp)
    · intro _ pre c post hcalls hvr
      have hmem : c ∈ prunedCalls ((visitor.rule.withFinal .terminate).prune []
          (startItem start :: ff.startListing start)) := by
        rw [hcalls]
        simp
      obtain ⟨p, hp, hvr⟩ := terminate_of_mem_prunedCalls hmem hvr
      exact absurd hvr (hnone p hp)
  · rw [List.nil_append] at hx heq
    have hreported : (x, VisitResult.terminate) ∈
        (visitor.rule.prune [] (startItem start :: ff.startListing start)).1 := by
      rw [heq]
      simp
    obtain ⟨e, he⟩ := visit_of_reported hreported
    have hpre : ∀ d ∈ prunedCalls (answers, none), d.2 ≠ some .terminate := by
      intro d hd hvr
      obtain ⟨p, hp, hpterm⟩ := terminate_of_mem_prunedCalls hd hvr
      exact hterm p hp hpterm
    rw [heq, prunedCalls_append he, terminateIsFinal_iff hpre rfl,
      calls_behind_iff hsplit hsub hx (kind_of_reported hreported) hterm, hfin]
    refine ⟨?_, ?_⟩
    · intro h p hp hvr
      rcases List.mem_append.1 hp with hp | hp
      · exact absurd hvr (hterm p hp)
      · rw [List.mem_singleton.1 hp]
        exact h
    · intro h
      exact h (x, .terminate) (by simp) rfl

/-- A file in a directory in the directory `/t`. -/
def nestedDir : StartDir where
  path := "/t".toList
  canOpen := true
  entries := .cons (.of "u") false (.dir true (.cons (.of "v") false .reg .nil)) .nil
  nonempty := by decide

/-- Answers `TERMINATE` for every file. -/
def stopAtFile : Trace → Event → VisitResult :=
  fun _ e => if e.kind = .visitFile then .terminate else .continue

/-- Behind `TERMINATE` for `/t/u/v`, the walk leaves `/t/u` with a callback. -/
theorem terminate_not_final :
    ¬TerminateIsFinal
      (callbacks (FindFiles.walkFileTree {} (Visitor.returning stopAtFile) nestedDir)) := by
  intro h
  have hcalls : callbacks (FindFiles.walkFileTree {} (Visitor.returning stopAtFile) nestedDir) =
      [(startEvent nestedDir, some .continue),
        (⟨"/t/u".toList, ['u'], 1, .dir, .preVisitDirectory⟩, some .continue)] ++
      (⟨"/t/u/v".toList, ['v'], 2, .reg, .visitFile⟩, some .terminate) ::
      [(⟨"/t/u".toList, ['u'], 1, .dir, .postVisitDirectory⟩, some .continue)] := by
    decide
  cases h _ _ _ hcalls rfl

end FindFiles

end Spartan
