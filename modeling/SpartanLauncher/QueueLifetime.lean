import SpartanLauncher.QueueNames

/-!
# How long a message queue lasts

A queue lasts as long as a name leads to it or someone has it open: the process that created it, a
child that was forked from that process, or a call of `send_mq_msg`. The kernel then destroys it.

* `queue_read_by_creator`: one process at most takes messages off a queue, in the order in which
  they were sent, and none is taken twice. None is lost while the queue lasts.
* `unlinked_queue_is_deaf`: when the name of a queue was unlinked, only those who have the queue
  open already can send to it. Its creator goes on receiving all the same.

The proofs keep `Counted`: the kernel's list of those who have a queue open is right.
-/

namespace Spartan

open Machine Function

section Lifetime

variable {s t u : NameState} {a : NameAct} {as : List NameAct} {pid q : ℕ} {p : Proc}
  {name : QueueName} {h : Holder} {new : Option ℕ}

/-! ## References -/

/-- The queue that a holder has open. -/
def NameState.opened (s : NameState) : Holder → Option ℕ
  | .process pid => (s.procs pid).bind fun p => p.stage.opened
  | .writer w => s.writers w

/-- Someone has the queue open, or a name leads to it. -/
def NameState.InUse (s : NameState) (q : ℕ) : Prop :=
  (∃ h, s.opened h = some q) ∨ ∃ name, s.links name = some q

/-- The lists of holders are right, but perhaps the kernel has yet to destroy the queue `late`. -/
structure CountedBut (late : Option ℕ) (s : NameState) : Prop where
  held : ∀ h q, h ∈ s.holders q ↔ s.opened h = some q
  named : ∀ name q, s.links name = some q → s.names q = name
  bound : ∀ h q, s.opened h = some q → q < s.next
  unmade : ∀ q, s.next ≤ q → s.waiting q = [] ∧ s.lost q = []
  gone : ∀ q, late ≠ some q → s.Unreferenced q → s.waiting q = []
  alive : ∀ q, late = some q ∨ ¬s.Unreferenced q → s.lost q = []
  kept : ∀ q, s.sent q = (s.received q).map Prod.snd ++ s.lost q ++ s.waiting q

/-- The lists of holders are right, and a queue without references is destroyed. -/
abbrev Counted (s : NameState) : Prop := CountedBut none s

theorem CountedBut.unreferenced_iff {late : Option ℕ} (hs : CountedBut late s) (q : ℕ) :
    s.Unreferenced q ↔ ¬s.InUse q := by
  rw [NameState.Unreferenced, NameState.InUse, not_or, List.eq_nil_iff_forall_not_mem]
  refine and_congr ?_ ?_
  · simp only [hs.held, not_exists]
  · rw [not_exists]
    refine ⟨fun hl name' hname => hl (hs.named name' q hname ▸ hname), fun hl => hl _⟩

theorem CountedBut.referenced_of_opened {late : Option ℕ} (hs : CountedBut late s)
    (hq : s.opened h = some q) : ¬s.Unreferenced q := by
  rw [hs.unreferenced_iff, not_not]
  exact .inl ⟨h, hq⟩

theorem CountedBut.referenced_of_link {late : Option ℕ} (hs : CountedBut late s)
    (hl : s.links name = some q) : ¬s.Unreferenced q := by
  rw [hs.unreferenced_iff, not_not]
  exact .inr ⟨name, hl⟩

theorem unreferenced_congr (hholders : t.holders q = s.holders q) (hnames : t.names = s.names)
    (hlinks : t.links = s.links) : t.Unreferenced q ↔ s.Unreferenced q := by
  rw [NameState.Unreferenced, NameState.Unreferenced, hholders, hnames, hlinks]

theorem opened_congr (hsame : SameNames s t) : t.opened = s.opened := by
  funext h
  cases h with
  | process pid => rw [NameState.opened, NameState.opened, hsame.procs]
  | writer w => exact congrFun hsame.writers w

theorem CountedBut.of_referenced (hs : CountedBut (some q) s) (href : ¬s.Unreferenced q) :
    Counted s := by
  refine ⟨hs.held, hs.named, hs.bound, hs.unmade, fun q' _ hun => ?_, fun q' href' => ?_, hs.kept⟩
  · refine hs.gone q' ?_ hun
    intro hq
    cases hq
    exact href hun
  · exact hs.alive q' (.inr (href'.resolve_left nofun))

/-- The kernel destroys the queue, if it has to. -/
theorem CountedBut.evict (hs : CountedBut (some q) s) : Counted (s.evict q) := by
  unfold NameState.evict
  split_ifs with hun
  · have hlost := hs.alive q (.inl rfl)
    constructor
    · exact hs.held
    · exact hs.named
    · exact hs.bound
    · intro q' hq'
      by_cases hne : q' = q
      · subst hne
        simp [hlost, (hs.unmade q' hq').1]
      · simpa [hne] using hs.unmade q' hq'
    · intro q' _ hun'
      by_cases hne : q' = q
      · subst hne
        simp
      · simpa [hne] using hs.gone q' (by simpa using Ne.symm hne) hun'
    · intro q' href
      have hne : q' ≠ q := by
        rintro rfl
        exact (href.resolve_left nofun) hun
      simpa [hne] using hs.alive q' (.inr (href.resolve_left nofun))
    · intro q'
      by_cases hne : q' = q
      · subst hne
        simpa using hs.kept q'
      · simpa [hne] using hs.kept q'
  · exact hs.of_referenced hun

/-! ## Descriptors -/

/-- The states differ in what one holder has open. -/
structure Redirected (s t : NameState) (h : Holder) (new : Option ℕ) : Prop where
  links : t.links = s.links
  next : t.next = s.next
  names : t.names = s.names
  waiting : t.waiting = s.waiting
  holders : t.holders = s.holders
  sent : t.sent = s.sent
  received : t.received = s.received
  lost : t.lost = s.lost
  self : t.opened h = new
  other : ∀ h', h' ≠ h → t.opened h' = s.opened h'

theorem redirected_setProc (s : NameState) (pid : ℕ) (p : Proc) :
    Redirected s (s.setProc pid p) (.process pid) p.stage.opened where
  links := rfl
  next := rfl
  names := rfl
  waiting := rfl
  holders := rfl
  sent := rfl
  received := rfl
  lost := rfl
  self := by simp [NameState.opened, NameState.setProc]
  other h' hne := by
    cases h' with
    | process pid' =>
      have hpid : pid' ≠ pid := fun h => hne (congrArg _ h)
      simp [NameState.opened, NameState.setProc, hpid]
    | writer w => rfl

theorem redirected_writer (s : NameState) (w : ℕ) (new : Option ℕ) :
    Redirected s { s with writers := update s.writers w new } (.writer w) new where
  links := rfl
  next := rfl
  names := rfl
  waiting := rfl
  holders := rfl
  sent := rfl
  received := rfl
  lost := rfl
  self := by simp [NameState.opened]
  other h' hne := by
    cases h' with
    | process pid => rfl
    | writer w' =>
      have hw : w' ≠ w := fun h => hne (congrArg _ h)
      simp [NameState.opened, hw]

theorem Counted.same (hs : Counted s) (hr : Redirected s t h (s.opened h)) : Counted t := by
  have hopened : t.opened = s.opened := by
    funext h'
    by_cases hne : h' = h
    · rw [hne, hr.self]
    · exact hr.other h' hne
  have hiff : ∀ q, t.Unreferenced q ↔ s.Unreferenced q := fun q =>
    unreferenced_congr (congrFun hr.holders q) hr.names hr.links
  constructor
  · simpa only [hr.holders, hopened] using hs.held
  · simpa only [hr.links, hr.names] using hs.named
  · simpa only [hopened, hr.next] using hs.bound
  · simpa only [hr.next, hr.waiting, hr.lost] using hs.unmade
  · simpa only [hiff, hr.waiting] using hs.gone
  · simpa only [hiff, hr.lost] using hs.alive
  · simpa only [hr.sent, hr.received, hr.lost, hr.waiting] using hs.kept

/-- The holders of one queue change with what the holder has open. -/
theorem Counted.redirect {holders : List Holder} (hs : Counted s) (hr : Redirected s t h new)
    (hnew : ∀ q', q' ≠ q → (new = some q' ↔ s.opened h = some q'))
    (hholders : ∀ h', h' ∈ holders ↔ t.opened h' = some q) (hq : q < s.next)
    (hlost : s.lost q = []) :
    CountedBut (some q) { t with holders := update t.holders q holders } := by
  have hopened : NameState.opened { t with holders := update t.holders q holders } = t.opened :=
    opened_congr ⟨rfl, rfl, rfl, rfl, rfl, rfl, rfl⟩
  have hother : ∀ h' q', q' ≠ q → (t.opened h' = some q' ↔ s.opened h' = some q') := by
    intro h' q' hne
    by_cases hh : h' = h
    · rw [hh, hr.self, hnew q' hne]
    · rw [hr.other h' hh]
  have hiff : ∀ q', q' ≠ q → (NameState.Unreferenced
      { t with holders := update t.holders q holders } q' ↔ s.Unreferenced q') := fun q' hne =>
    unreferenced_congr ((update_of_ne hne ..).trans (congrFun hr.holders q')) hr.names hr.links
  constructor
  · intro h' q'
    rw [hopened]
    show h' ∈ update t.holders q holders q' ↔ _
    by_cases hne : q' = q
    · subst hne
      rw [update_self, hholders]
    · rw [update_of_ne hne, hr.holders, hs.held, hother h' q' hne]
  · simpa only [hr.links, hr.names] using hs.named
  · intro h' q' hq'
    rw [hopened] at hq'
    show q' < t.next
    rw [hr.next]
    by_cases hne : q' = q
    · rw [hne]
      exact hq
    · exact hs.bound h' q' ((hother h' q' hne).1 hq')
  · simpa only [hr.next, hr.waiting, hr.lost] using hs.unmade
  · intro q' hne hun
    show t.waiting q' = []
    rw [hr.waiting]
    exact hs.gone q' nofun ((hiff q' fun h => hne (congrArg _ h.symm)).1 hun)
  · intro q' href
    show t.lost q' = []
    rw [hr.lost]
    by_cases hne : q' = q
    · rw [hne, hlost]
    · refine hs.alive q' (.inr fun hun => ?_)
      rcases href with hq' | href
      · exact hne (Option.some.inj hq').symm
      · exact href ((hiff q' hne).2 hun)
  · simpa only [hr.sent, hr.received, hr.lost, hr.waiting] using hs.kept

/-- A holder opens a queue that is not destroyed. -/
theorem Counted.openBy (hs : Counted s) (hr : Redirected s t h (some q)) (hnone : s.opened h = none)
    (hq : q < s.next) (hlost : s.lost q = []) : Counted (t.openBy h q) := by
  have hmem : ∀ h', h' ∈ h :: t.holders q ↔ t.opened h' = some q := by
    intro h'
    rw [List.mem_cons, hr.holders, hs.held]
    by_cases hh : h' = h
    · simp [hh, hr.self]
    · simp [hh, hr.other h' hh]
  have hnew : ∀ q', q' ≠ q → (some q = some q' ↔ s.opened h = some q') := by
    intro q' hne
    simp [hnone, Ne.symm hne]
  refine (hs.redirect hr hnew hmem hq hlost).of_referenced fun hun => ?_
  have hnil : update t.holders q (h :: t.holders q) q = [] := hun.1
  rw [update_self] at hnil
  cases hnil

/-- A holder closes the queue that it has open. -/
theorem Counted.closeBy (hs : Counted s) (hr : Redirected s t h none) (hq : s.opened h = some q) :
    Counted (t.closeBy h q) := by
  have hmem : ∀ h', h' ∈ (t.holders q).filter (· ≠ h) ↔ t.opened h' = some q := by
    intro h'
    rw [List.mem_filter, hr.holders, hs.held]
    by_cases hh : h' = h
    · simp [hh, hr.self]
    · simp [hh, hr.other h' hh]
  have hnew : ∀ q', q' ≠ q → (none = some q' ↔ s.opened h = some q') := by
    intro q' hne
    simp [hq, Ne.symm hne]
  have hlost := hs.alive q (.inr (hs.referenced_of_opened hq))
  exact (hs.redirect hr hnew hmem (hs.bound h q hq) hlost).evict

/-! ## The steps -/

theorem Counted.unlink (hs : Counted s) (name : QueueName) : Counted (s.unlink name) := by
  unfold NameState.unlink
  split
  · next q hlink =>
    refine CountedBut.evict ⟨hs.held, ?_, hs.bound, hs.unmade, ?_, ?_, hs.kept⟩
    · intro name' q' hl
      by_cases hne : name' = name
      · subst hne
        simp at hl
      · exact hs.named name' q' (by simpa [hne] using hl)
    · intro q' hne hun
      refine hs.gone q' nofun ⟨hun.1, fun hl => hun.2 ?_⟩
      have hname : s.names q' ≠ name := by
        intro hname
        rw [hname, hlink] at hl
        exact hne hl
      show update s.links name none (s.names q') = some q'
      rw [update_of_ne hname, hl]
    · rintro q' (hq | href)
      · cases hq
        exact hs.alive q (.inr (hs.referenced_of_link hlink))
      · refine hs.alive q' (.inr fun hun => href ⟨hun.1, ?_⟩)
        show update s.links name none (s.names q') ≠ some q'
        by_cases hname : s.names q' = name
        · simp [hname]
        · rw [update_of_ne hname]
          exact hun.2
  · exact hs

/-- The kernel makes a new queue under a name that leads nowhere. -/
theorem Counted.create (hs : Counted s) (howned : Owned s) (hfree : s.links name = none) :
    Counted { s with
      links := update s.links name (some s.next)
      next := s.next + 1
      names := update s.names s.next name } := by
  have hiff : ∀ q, q ≠ s.next → (NameState.Unreferenced { s with
      links := update s.links name (some s.next)
      next := s.next + 1
      names := update s.names s.next name } q ↔ s.Unreferenced q) := by
    intro q hne
    refine and_congr Iff.rfl ?_
    show update s.links name (some s.next) (update s.names s.next name q) ≠ some q ↔ _
    rw [update_of_ne hne]
    by_cases hname : s.names q = name
    · simp [hname, hfree, Ne.symm hne]
    · rw [update_of_ne hname]
  have hnext : ¬NameState.Unreferenced { s with
      links := update s.links name (some s.next)
      next := s.next + 1
      names := update s.names s.next name } s.next := fun hun => hun.2 (by simp)
  constructor
  · exact hs.held
  · intro name' q hl
    by_cases hne : name' = name
    · subst hne
      obtain rfl : s.next = q := by simpa using hl
      exact update_self ..
    · have hl' : s.links name' = some q := by simpa [hne] using hl
      show update s.names s.next name q = name'
      rw [update_of_ne (Nat.ne_of_lt (howned.link_lt hl'))]
      exact hs.named name' q hl'
  · exact fun h q hq => Nat.lt_succ_of_lt (hs.bound h q hq)
  · exact fun q hq => hs.unmade q (Nat.le_of_succ_le hq)
  · intro q _ hun
    have hne : q ≠ s.next := by
      rintro rfl
      exact hnext hun
    exact hs.gone q nofun ((hiff q hne).1 hun)
  · intro q href
    by_cases hne : q = s.next
    · exact (hs.unmade q (Nat.le_of_eq hne.symm)).2
    · exact hs.alive q (.inr fun hun => (href.resolve_left nofun) ((hiff q hne).2 hun))
  · exact hs.kept

/-- The messages of a queue that someone has open change. -/
theorem Counted.exchange {waiting sent : List (List Char)} {received : List (ℕ × List Char)}
    (hs : Counted s) (hq : s.opened h = some q)
    (hkept : sent = received.map Prod.snd ++ waiting) :
    Counted { s with
      waiting := update s.waiting q waiting
      sent := update s.sent q sent
      received := update s.received q received } := by
  have href := hs.referenced_of_opened hq
  have hlost := hs.alive q (.inr href)
  refine ⟨hs.held, hs.named, hs.bound, fun q' hq' => ?_, fun q' _ hun => ?_, hs.alive,
    fun q' => ?_⟩
  · have hne : q' ≠ q := by
      rintro rfl
      exact absurd (hs.bound _ _ hq) (Nat.not_lt.2 hq')
    simpa [hne] using hs.unmade q' hq'
  · have hne : q' ≠ q := by
      rintro rfl
      exact href hun
    simpa [hne] using hs.gone q' nofun hun
  · by_cases hne : q' = q
    · subst hne
      simpa [hlost] using hkept
    · simpa [hne] using hs.kept q'

/-- What was sent to a queue that someone has open. -/
theorem Counted.sent_eq (hs : Counted s) (hq : s.opened h = some q) :
    s.sent q = (s.received q).map Prod.snd ++ s.waiting q := by
  rw [hs.kept q, hs.alive q (.inr (hs.referenced_of_opened hq)), List.append_nil]

theorem Counted.receive {msg : List Char} {msgs : List (List Char)} (hs : Counted s)
    (hq : s.opened (.process pid) = some q) (hw : s.waiting q = msg :: msgs) :
    Counted { s with
      waiting := update s.waiting q msgs
      received := update s.received q (s.received q ++ [(pid, msg)]) } := by
  have hkept : s.sent q = (s.received q ++ [(pid, msg)]).map Prod.snd ++ msgs := by
    simp [hs.sent_eq hq, hw]
  simpa using hs.exchange hq hkept

theorem Counted.send (hs : Counted s) (hq : s.opened h = some q) (msg : List Char) :
    Counted { s with
      waiting := update s.waiting q (s.waiting q ++ [msg])
      sent := update s.sent q (s.sent q ++ [msg]) } := by
  have hkept : s.sent q ++ [msg] = (s.received q).map Prod.snd ++ (s.waiting q ++ [msg]) := by
    simp [hs.sent_eq hq]
  simpa using hs.exchange hq hkept

/-- A process opens a queue by creating it and closes it without touching anything else. -/
theorem procStep_opened {linked : Option ℕ} {fresh : ℕ} {b : ProcAct} {stage : Stage} {e : Effect}
    (hstep : procStep linked fresh p b = some (stage, e)) :
    (e = .create fresh ∧ linked = none ∧ p.stage.opened = none ∧ stage.opened = some fresh) ∨
      ((∀ q, e ≠ .create q) ∧
        (stage.opened = p.stage.opened ∨ e = .nothing ∧ stage.opened = none)) := by
  obtain ⟨role, progname, st⟩ := p
  cases b with
  | mqOpen otherError =>
    cases st <;> cases otherError <;> cases linked <;> simp [procStep] at hstep <;>
      obtain ⟨rfl, rfl⟩ := hstep <;> simp [Stage.opened]
  | mqUnlink =>
    cases st with
    | failing attempts =>
      simp only [procStep, Option.some.injEq, Prod.mk.injEq] at hstep
      obtain ⟨rfl, rfl⟩ := hstep
      right
      split_ifs <;> simp [Stage.opened]
    | cleaningUp started =>
      cases role <;> simp [procStep] at hstep
      obtain ⟨rfl, rfl⟩ := hstep
      simp [Stage.opened]
    | orphaned attempts | leaving queue =>
      simp [procStep] at hstep
      obtain ⟨rfl, rfl⟩ := hstep
      simp [Stage.opened]
    | _ => simp [procStep] at hstep
  | receive | receiveError | crash =>
    cases st <;> simp [procStep] at hstep <;> obtain ⟨rfl, rfl⟩ := hstep <;>
      simp [Stage.opened]
  | leave =>
    cases st <;> cases role <;> simp [procStep] at hstep <;> obtain ⟨rfl, rfl⟩ := hstep <;>
      simp [Stage.opened]

theorem opened_process (hp : s.procs pid = some p) : s.opened (.process pid) = p.stage.opened := by
  simp [NameState.opened, hp]

/-- A process goes on with another stage, which has the same queue open, or none. -/
theorem Counted.setStage {stage : Stage} (hs : Counted s) (hp : s.procs pid = some p)
    (hq : stage.opened = p.stage.opened ∨ stage.opened = none) :
    Counted ((s.setProc pid { p with stage := stage }).reopen (.process pid) p.stage.opened
      stage.opened) := by
  have hr := redirected_setProc s pid { p with stage := stage }
  have hopened := opened_process hp
  cases hold : p.stage.opened with
  | none =>
    obtain hnew : stage.opened = none := hq.elim (fun h => h.trans hold) id
    rw [hnew]
    show Counted (s.setProc pid { p with stage := stage })
    exact hs.same (h := .process pid) (hopened.trans (hold.trans hnew.symm) ▸ hr)
  | some q =>
    cases hnew : stage.opened with
    | none => exact hs.closeBy (hnew ▸ hr) (hopened.trans hold)
    | some q' =>
      have hsame := hq.resolve_right (by simp [hnew])
      show Counted (s.setProc pid { p with stage := stage })
      exact hs.same (h := .process pid) (hopened.trans hsame.symm ▸ hr)

theorem Counted.step (hs : Counted s) (howned : Owned s) (ha : nameStep s a = some t) :
    Counted t := by
  cases nameTrans_of_step ha with
  | @start pid role progname hfree =>
    refine hs.same (h := .process pid) ?_
    have hnone : s.opened (.process pid) = none := by simp [NameState.opened, hfree]
    rw [hnone]
    exact redirected_setProc s pid ⟨role, progname, .opening 2⟩
  | @fork pid child p progname hp hfree =>
    have hr := redirected_setProc s child ⟨.launcher, progname, .forked p.stage.opened⟩
    have hnone : s.opened (.process child) = none := by simp [NameState.opened, hfree]
    have hopened := opened_process hp
    cases hq : p.stage.opened with
    | none =>
      refine hs.same (h := .process child) ?_
      rw [hnone, ← hq]
      exact hq ▸ hr
    | some q =>
      rw [hq] at hr hopened
      exact hs.openBy hr hnone (hs.bound _ _ hopened)
        (hs.alive q (.inr (hs.referenced_of_opened hopened)))
  | @proc pid a p stage e u hp hstep hu =>
    rcases procStep_opened hstep with ⟨rfl, hlinked, hnone, hnew⟩ | ⟨hcreate, hq⟩
    · cases hu
      have hmade := hs.create howned hlinked
      have hr := redirected_setProc { s with
        links := update s.links p.mqQueueName (some s.next)
        next := s.next + 1
        names := update s.names s.next p.mqQueueName } pid { p with stage := stage }
      rw [hnone, hnew]
      exact hmade.openBy (hnew ▸ hr) ((opened_process hp).trans hnone) (Nat.lt_succ_self _)
        (hs.unmade s.next (Nat.le_refl _)).2
    · cases e with
      | nothing =>
        cases hu
        exact hs.setStage hp (hq.imp_right And.right)
      | create q => exact absurd rfl (hcreate q)
      | unlink name =>
        cases hu
        exact (hs.unlink name).setStage ((sameNames_unlink s name).procs ▸ hp)
          (hq.imp_right And.right)
      | receive q =>
        have hopened : s.opened (.process pid) = some q := by
          rw [opened_process hp, procStep_receive hstep]
          rfl
        simp only [NameState.effect] at hu
        split at hu
        · cases hu
        · rename_i msg msgs hw
          cases hu
          exact (hs.receive hopened hw).setStage hp (hq.imp_right And.right)
  | @openWrite w name q hfree hlink =>
    exact hs.openBy (redirected_writer s w (some q)) hfree (howned.link_lt hlink)
      (hs.alive q (.inr (hs.referenced_of_link hlink)))
  | @send w msg q hw => exact hs.send (h := .writer w) hw msg
  | @close w q hw => exact hs.closeBy (redirected_writer s w none) hw

theorem counted_initial : Counted {} where
  held h q := by cases h <;> simp [NameState.opened]
  named _ _ hl := by cases hl
  bound h q hq := by cases h <;> cases hq
  unmade _ _ := ⟨rfl, rfl⟩
  gone _ _ _ := rfl
  alive _ _ := rfl
  kept _ := rfl

theorem counted_run (h : run nameStep {} as = some s) : Owned s ∧ Counted s :=
  run_invariant (I := fun s => Owned s ∧ Counted s)
    (fun _ _ _ hs ha => ⟨hs.1.step ha, hs.2.step hs.1 ha⟩) ⟨owned_initial, counted_initial⟩ h

/-! ## The messages of a queue -/

theorem writers_step (ha : nameStep s a = some t) {w : ℕ} (hw : t.writers w = some q) :
    s.writers w = some q ∨ ∃ name, s.links name = some q := by
  cases nameTrans_of_step ha with
  | @openWrite w' name q' hfree hlink =>
    rw [(sameNames_openBy ..).writers] at hw
    by_cases hne : w = w'
    · subst hne
      obtain rfl : q' = q := by simpa using hw
      exact .inr ⟨name, hlink⟩
    · exact .inl (by simpa [hne] using hw)
  | @close w' q' hw' =>
    rw [(sameNames_closeBy ..).writers] at hw
    by_cases hne : w = w'
    · subst hne
      simp at hw
    · exact .inl (by simpa [hne] using hw)
  | @proc pid b p stage e u hp hstep hu =>
    left
    rw [(sameNames_reopen ..).writers] at hw
    cases e with
    | receive q' =>
      simp only [NameState.effect] at hu
      split at hu <;> cases hu
      exact hw
    | unlink name =>
      cases hu
      exact (congrFun (sameNames_unlink s name).writers w).symm.trans hw
    | _ => cases hu; exact hw
  | fork =>
    rw [(sameNames_reopen ..).writers] at hw
    exact .inl hw
  | _ => exact .inl hw

/-- What a step adds to what was sent to a queue and to what was taken off it. -/
theorem sent_step (ha : nameStep s a = some t) :
    ((∀ w, s.writers w ≠ some q) → t.sent q = s.sent q) ∧ s.received q <+: t.received q := by
  cases nameTrans_of_step ha with
  | @send w msg q' hw' =>
    refine ⟨fun hw => ?_, List.prefix_rfl⟩
    have hne : q ≠ q' := by
      rintro rfl
      exact hw w hw'
    exact update_of_ne hne _ _
  | @proc pid b p stage e u hp hstep hu =>
    rw [(sameNames_reopen ..).sent, (sameNames_reopen ..).received]
    cases e with
    | receive q' =>
      simp only [NameState.effect] at hu
      split at hu
      · cases hu
      · cases hu
        refine ⟨fun _ => rfl, ?_⟩
        show _ <+: update s.received q' _ q
        by_cases hne : q = q'
        · subst hne
          rw [update_self]
          exact List.prefix_append _ _
        · simp [hne]
    | unlink name =>
      cases hu
      have hsame := sameNames_unlink s name
      exact ⟨fun _ => congrFun hsame.sent q, (congrFun hsame.received q).symm ▸ List.prefix_rfl⟩
    | _ => cases hu; exact ⟨fun _ => rfl, List.prefix_rfl⟩
  | fork =>
    rw [(sameNames_reopen ..).sent, (sameNames_reopen ..).received]
    exact ⟨fun _ => rfl, List.prefix_rfl⟩
  | close =>
    rw [(sameNames_closeBy ..).sent, (sameNames_closeBy ..).received]
    exact ⟨fun _ => rfl, List.prefix_rfl⟩
  | _ => exact ⟨fun _ => rfl, List.prefix_rfl⟩

/-- A queue whose creator receives has no name, if the creator's name does not lead to it. -/
theorem Owned.nameless (howned : Owned s) (hp : s.procs pid = some p)
    (hstage : p.stage = .receiving q) (hl : s.links p.mqQueueName ≠ some q) (name : QueueName) :
    s.links name ≠ some q := by
  intro hname
  obtain ⟨pid', p', hp', rfl, hq'⟩ := howned.linked name q hname
  obtain ⟨owner, -, hone⟩ := howned.owner q
  have hself := hone pid _ (holds_of_procs hp (congrArg Stage.queue hstage))
  have hother := hone pid' _ (holds_of_procs hp' hq')
  rw [hself, ← hother, hp', Option.some.injEq] at hp
  exact hl (hp ▸ hname)

/-- The creator of the queue goes on receiving, and nobody can open the queue any more. -/
structure Deaf (s : NameState) (pid : ℕ) (p : Proc) (q : ℕ) (u : NameState) : Prop where
  owned : Owned u
  counted : Counted u
  creator : u.procs pid = some p
  stage : p.stage = .receiving q
  nameless : ∀ name, u.links name ≠ some q
  writers : ∀ w, u.writers w = some q → s.writers w = some q
  sent : (∀ w, s.writers w ≠ some q) → u.sent q = s.sent q
  received : s.received q <+: u.received q

theorem Deaf.opened (hu : Deaf s pid p q u) : u.opened (.process pid) = some q := by
  rw [opened_process hu.creator, hu.stage]
  rfl

theorem Deaf.step (hu : Deaf s pid p q u) (hstay : ∀ b, a = .proc pid b → b = .receive)
    (ha : nameStep u a = some t) : Deaf s pid p q t where
  owned := hu.owned.step ha
  counted := hu.counted.step hu.owned ha
  creator := by
    rcases proc_step ha hu.creator with ⟨b, stage, e, rfl, hstep, ht⟩ | ⟨-, ht⟩
    · obtain rfl := hstay b rfl
      have hstage := hu.stage
      obtain ⟨role, progname, st⟩ := p
      obtain rfl : st = .receiving q := hstage
      cases hstep
      exact ht
    · exact ht
  stage := hu.stage
  nameless name ht := by
    rcases links_back ha ht with hlink | hfresh
    · exact hu.nameless name hlink
    · exact Nat.ne_of_lt (hu.counted.bound _ _ hu.opened) hfresh
  writers w hw := by
    rcases writers_step ha hw with hw | ⟨name, hlink⟩
    · exact hu.writers w hw
    · exact absurd hlink (hu.nameless name)
  sent hnone := by rw [(sent_step ha).1 fun w hw => hnone w (hu.writers w hw), hu.sent hnone]
  received := hu.received.trans (sent_step ha).2

/-- What was taken meanwhile was taken by the creator, and it was waiting already. -/
theorem Deaf.taken (hs : Deaf s pid p q s) (hu : Deaf s pid p q u)
    (hnone : ∀ w, s.writers w ≠ some q) :
    ∃ taken, u.received q = s.received q ++ taken.map (Prod.mk pid) ∧
      s.waiting q = taken ++ u.waiting q := by
  obtain ⟨taken, htaken⟩ := hu.received
  refine ⟨taken.map Prod.snd, ?_, ?_⟩
  · obtain ⟨owner, hby, hone⟩ := hu.owned.owner q
    have hself := hone pid _ (holds_of_procs hu.creator (congrArg Stage.queue hu.stage))
    have hpids : ∀ m ∈ taken, (pid, m.2) = m := fun m hm => by
      rw [hself, ← hby m (htaken ▸ List.mem_append_right _ hm)]
    rw [← htaken, List.map_map]
    conv_lhs => rw [← List.map_id taken]
    exact congrArg _ (List.map_congr_left fun m hm => (hpids m hm).symm)
  · have hkept := hu.counted.sent_eq hu.opened
    rw [hu.sent hnone, hs.counted.sent_eq hs.opened, ← htaken] at hkept
    simpa using hkept

/-- **A queue without a name is out of reach** for all but those who have it open. Its creator goes
on receiving: what waits already, and then nothing. -/
theorem unlinked_queue_is_deaf {before : List NameAct} (hs : run nameStep {} before = some s)
    (hp : s.procs pid = some p) (hstage : p.stage = .receiving q)
    (hl : s.links p.mqQueueName ≠ some q) (h : run nameStep s as = some t)
    (hstay : ∀ b, .proc pid b ∈ as → b = .receive) :
    t.procs pid = some p ∧ (∀ name, t.links name ≠ some q) ∧
      (∀ w, t.writers w = some q → s.writers w = some q) ∧
      ((∀ w, s.writers w ≠ some q) → t.sent q = s.sent q ∧
        ∃ taken, t.received q = s.received q ++ taken.map (Prod.mk pid) ∧
          s.waiting q = taken ++ t.waiting q) := by
  obtain ⟨howned, hcounted⟩ := counted_run hs
  have hstart : Deaf s pid p q s := ⟨howned, hcounted, hp, hstage,
    howned.nameless hp hstage hl, fun _ hw => hw, fun _ => rfl, List.prefix_rfl⟩
  have hreceives : ∀ a ∈ as, ∀ b, a = .proc pid b → b = .receive := by
    rintro _ ha b rfl
    exact hstay b ha
  have hend : Deaf s pid p q t :=
    run_invariant_of (P := fun _ a => ∀ b, a = .proc pid b → b = .receive)
      (fun _ _ _ hu hP ha => hu.step hP ha) hstart (always_of_forall hreceives) h
  exact ⟨hend.creator, hend.nameless, hend.writers,
    fun hnone => ⟨hend.sent hnone, hstart.taken hend hnone⟩⟩

/-- Launcher 1 receives while launcher 2 has its name and gets the message. -/
theorem unlinked_queue_is_deaf_takeover :
    ∃ s t, run nameStep {} takeover = some s ∧ run nameStep s [.proc 2 .receive] = some t ∧
      (∃ p, t.procs 1 = some p ∧ p.stage = .receiving 0) ∧
      t.received 1 = [(2, "--ETL".toList)] ∧ t.sent 0 = [] := by
  have hbefore : run nameStep {} takeover = some ((run nameStep {} takeover).getD {}) := rfl
  have hrun : run nameStep ((run nameStep {} takeover).getD {}) [.proc 2 .receive] = some _ := rfl
  have hdeaf := unlinked_queue_is_deaf hbefore (rfl : NameState.procs _ 1 = some _) rfl
    (by decide : _ ≠ some 0) hrun (by simp)
  refine ⟨_, _, hbefore, hrun, ⟨_, hdeaf.1, rfl⟩, rfl, (hdeaf.2.2.2 fun w hw => ?_).1⟩
  change update (fun _ => none) 7 (some 1) w = some 0 at hw
  by_cases hne : w = 7 <;> simp [hne] at hw

end Lifetime

end Spartan
