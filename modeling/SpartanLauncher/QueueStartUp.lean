import SpartanLauncher.QueueNames

/-!
# Starting a launcher or a supervisor

`supervisor` makes two attempts at creating its queue, and after each failure it unlinks the name.
That is right when the name is the orphan of a process that ended without its destructors. It is not
when two processes start at the same time.

**Theorem (`startUp_fails_only_if_raced`).** When all its calls of `mq_open_ex` that fail do so
because the name exists, and `mq_unlink` takes away the names that exist, a process gives up only if
another one creates a queue under that name after its first unlinking. By then it has taken the name
away from the other one.

The proof follows the process up to the race with the invariant `Starting`, and from there with
`Losing`.
-/

namespace Spartan

open Machine Function

section StartUp

variable {s t : NameState} {a : NameAct} {as : List NameAct} {pid q : ℕ} {p : Proc}

/-! ## Start-up -/

/-- `mq_open_ex` creates the queue when the name leads nowhere. -/
theorem links_of_mqOpen (ha : nameStep s (.proc pid (.mqOpen false)) = some t)
    (hp : s.procs pid = some p) (hfree : s.links p.mqQueueName = none) :
    t.links p.mqQueueName = some s.next ∧ t.next = s.next + 1 := by
  cases nameTrans_of_step ha with
  | @proc _ _ p' stage e u hp' hstep hu =>
    cases hp.symm.trans hp'
    rw [hfree] at hstep
    cases hstage : p.stage <;> simp only [procStep, hstage] at hstep <;> cases hstep
    cases hu
    exact ⟨update_self .., rfl⟩

/-- Neither on the way to the second failure nor past it. -/
def Stage.pastStart : Stage → Bool
  | .receiving _ | .dropped | .leaving _ | .forked _ | .crashed _ => true
  | .cleaningUp started | .exited started => started
  | .opening _ | .orphaned _ | .failing _ => false

theorem pastStart_step {linked : Option ℕ} {fresh : ℕ} {b : ProcAct} {stage : Stage} {e : Effect}
    (h : procStep linked fresh p b = some (stage, e)) (hpast : p.stage.pastStart = true) :
    stage.pastStart = true := by
  obtain ⟨role, progname, st⟩ := p
  cases b <;> cases st <;> cases role <;> simp_all [procStep, Stage.pastStart] <;>
    obtain ⟨rfl, -⟩ := h <;> simp_all

/-- Another process creates a queue under the name of this one, which is about to make its second
attempt. -/
def Races (pid : ℕ) (s : NameState) (a : NameAct) : Prop :=
  ∃ p pid' p', s.procs pid = some p ∧ p.stage = .opening 1 ∧ pid' ≠ pid ∧
    a = .proc pid' (.mqOpen false) ∧ s.procs pid' = some p' ∧ p'.mqQueueName = p.mqQueueName ∧
    s.links p.mqQueueName = none

/-- Where a start-up is while no other process gets in between. -/
def Undisturbed (linked : Option ℕ) (stage : Stage) : Prop :=
  stage = .opening 2 ∨ stage = .orphaned 2 ∨ stage = .failing 2 ∨
    stage = .opening 1 ∧ linked = none ∨ stage.pastStart = true

theorem undisturbed_step {linked linked' : Option ℕ} {fresh : ℕ} {b : ProcAct} {stage : Stage}
    {e : Effect} (h : Undisturbed linked p.stage)
    (hstep : procStep linked fresh p b = some (stage, e)) (herr : b ≠ .mqOpen true)
    (hunlink : e = .unlink p.mqQueueName → linked' = none) : Undisturbed linked' stage := by
  have hpast : p.stage.pastStart = true → Undisturbed linked' stage := fun hpast =>
    .inr (.inr (.inr (.inr (pastStart_step hstep hpast))))
  obtain ⟨role, progname, st⟩ := p
  rcases h with h | h | h | ⟨h, rfl⟩ | h
  · cases h
    cases b with
    | mqOpen otherError =>
      cases otherError with
      | true => exact absurd rfl herr
      | false => cases linked <;> cases hstep <;> simp [Undisturbed, Stage.pastStart]
    | crash =>
      cases hstep
      simp [Undisturbed, Stage.pastStart]
    | _ => cases hstep
  · cases h
    cases b <;> cases hstep <;> simp [Undisturbed, Stage.pastStart]
  · cases h
    cases b <;> cases hstep
    · exact .inr (.inr (.inr (.inl ⟨rfl, hunlink rfl⟩)))
    · simp [Undisturbed, Stage.pastStart]
  · cases h
    cases b with
    | mqOpen otherError =>
      cases otherError with
      | true => exact absurd rfl herr
      | false =>
        cases hstep
        simp [Undisturbed, Stage.pastStart]
    | crash =>
      cases hstep
      simp [Undisturbed, Stage.pastStart]
    | _ => cases hstep
  · exact hpast h

def Starting (pid : ℕ) (p : Proc) (s : NameState) : Prop :=
  ∃ stage, s.procs pid = some { p with stage := stage } ∧
    Undisturbed (s.links p.mqQueueName) stage

theorem Starting.step (h : Starting pid p s) (ha : nameStep s a = some t)
    (herr : a ≠ .proc pid (.mqOpen true)) (hrace : ¬Races pid s a) : Starting pid p t := by
  obtain ⟨stage, hp, hstage⟩ := h
  rcases proc_step ha hp with ⟨b, stage', e, rfl, hstep, ht⟩ | ⟨hother, ht⟩
  · refine ⟨stage', ht, undisturbed_step hstage hstep ?_ ?_⟩
    · intro h
      subst h
      exact herr rfl
    · intro h
      subst h
      exact links_of_unlinkedBy ha (unlinkedBy_proc hp hstep)
  · refine ⟨stage, ht, ?_⟩
    rcases hstage with h | h | h | ⟨rfl, hl⟩ | h
    · exact .inl h
    · exact .inr (.inl h)
    · exact .inr (.inr (.inl h))
    · refine .inr (.inr (.inr (.inl ⟨rfl, ?_⟩)))
      -- the name stays free, since only another process could link it now
      cases hlink : t.links p.mqQueueName with
      | none => rfl
      | some q =>
        rcases links_cases ha with ⟨other, -, hlinks, -⟩ |
          ⟨-, ⟨hlinks, -⟩ | ⟨pid', p', rfl, hp', -, -, hlinks⟩⟩
        · by_cases hne : p.mqQueueName = other <;> simp_all
        · simp_all
        · have hpid : pid' ≠ pid := by
            intro h
            subst h
            exact hother _ rfl
          have hname : p'.mqQueueName ≠ p.mqQueueName := fun hname =>
            hrace ⟨_, pid', p', hp, rfl, hpid, rfl, hp', hname, hl⟩
          rw [hlinks, update_of_ne hname.symm, hl] at hlink
          cases hlink
    · exact .inr (.inr (.inr (.inr h)))

/-- Where a start-up is while the queue `q` has the name that it wants. -/
def Overtaken (linked : Option ℕ) (q : ℕ) (stage : Stage) : Prop :=
  stage = .opening 1 ∨ stage = .orphaned 1 ∨ stage = .failing 1 ∨ stage = .crashed none ∨
    linked ≠ some q

theorem overtaken_step {linked linked' : Option ℕ} {fresh q : ℕ} {b : ProcAct} {stage : Stage}
    {e : Effect} (h : Overtaken linked q p.stage)
    (hstep : procStep linked fresh p b = some (stage, e))
    (hcreate : e = .create fresh → linked' ≠ some q)
    (hunlink : e = .unlink p.mqQueueName → linked' = none)
    (hkeep : linked ≠ some q → linked' ≠ some q) : Overtaken linked' q stage := by
  obtain ⟨role, progname, st⟩ := p
  rcases h with h | h | h | h | h
  · cases h
    cases b with
    | mqOpen otherError =>
      cases otherError with
      | true =>
        cases hstep
        simp [Overtaken]
      | false =>
        cases linked with
        | none =>
          cases hstep
          exact .inr (.inr (.inr (.inr (hcreate rfl))))
        | some q' =>
          cases hstep
          simp [Overtaken]
    | crash =>
      cases hstep
      simp [Overtaken, Stage.queue]
    | _ => cases hstep
  · cases h
    cases b <;> cases hstep <;> simp [Overtaken, Stage.queue]
  · cases h
    cases b <;> cases hstep
    · simp [Overtaken, hunlink]
    · simp [Overtaken, Stage.queue]
  · cases h
    cases b <;> cases hstep
  · exact .inr (.inr (.inr (.inr (hkeep h))))

def Losing (pid : ℕ) (p : Proc) (q : ℕ) (s : NameState) : Prop :=
  q < s.next ∧ ∃ stage, s.procs pid = some { p with stage := stage } ∧
    Overtaken (s.links p.mqQueueName) q stage

theorem Losing.step (h : Losing pid p q s) (ha : nameStep s a = some t) : Losing pid p q t := by
  obtain ⟨hq, stage, hp, hstage⟩ := h
  refine ⟨Nat.lt_of_lt_of_le hq (next_le_step ha), ?_⟩
  have hkeep : s.links p.mqQueueName ≠ some q → t.links p.mqQueueName ≠ some q := by
    intro hl ht
    rcases links_back ha ht with hlink | hfresh
    · exact hl hlink
    · exact Nat.ne_of_lt hq hfresh
  rcases proc_step ha hp with ⟨b, stage', e, rfl, hstep, ht⟩ | ⟨-, ht⟩
  · refine ⟨stage', ht, overtaken_step hstage hstep ?_ ?_ hkeep⟩
    · -- a queue can only be created under a name that leads nowhere
      intro h
      subst h
      have hfree : s.links p.mqQueueName = none := (procStep_create hstep).2.2
      exact hkeep (by simp [hfree])
    · intro h
      subst h
      exact links_of_unlinkedBy ha (unlinkedBy_proc hp hstep)
  · refine ⟨stage, ht, ?_⟩
    rcases hstage with h | h | h | h | h
    · exact .inl h
    · exact .inr (.inl h)
    · exact .inr (.inr (.inl h))
    · exact .inr (.inr (.inr (.inl h)))
    · exact .inr (.inr (.inr (.inr (hkeep h))))

/-- **A start-up gives up only when it is overtaken**, and then it takes the name away from the
process that overtook it. -/
theorem startUp_fails_only_if_raced {p' : Proc} (hp : s.procs pid = some p)
    (hstage : p.stage = .opening 2) (herr : .proc pid (.mqOpen true) ∉ as)
    (h : run nameStep s as = some t) (ht : t.procs pid = some p')
    (hfail : p'.stage = .cleaningUp false ∨ p'.stage = .exited false) :
    ∃ pre pid' post u v, as = pre ++ .proc pid' (.mqOpen false) :: post ∧ pid' ≠ pid ∧
      run nameStep s pre = some u ∧ u.procs pid = some { p with stage := .opening 1 } ∧
      nameStep u (.proc pid' (.mqOpen false)) = some v ∧
      v.links p.mqQueueName = some u.next ∧ t.links p.mqQueueName ≠ some u.next := by
  have hstart : Starting pid p s := ⟨p.stage, hp, .inl hstage⟩
  have hnot : ¬Always nameStep (fun u a => a ≠ .proc pid (.mqOpen true) ∧ ¬Races pid u a) s as := by
    intro hall
    obtain ⟨stage, hstage', hgood⟩ := run_invariant_of (I := Starting pid p)
      (fun u a v hu hP ha => hu.step ha hP.1 hP.2) hstart hall h
    cases ht.symm.trans hstage'
    rcases hfail with hfail | hfail <;> simp_all [Undisturbed, Stage.pastStart]
  obtain ⟨pre, a, post, u, v, rfl, hpre, hall, hbad, hstep, hpost⟩ := exists_of_not_always h hnot
  have herr' : a ≠ .proc pid (.mqOpen true) := by
    intro h
    subst h
    exact herr (by simp)
  have hrace : Races pid u a := by
    by_contra hrace
    exact hbad ⟨herr', hrace⟩
  obtain ⟨stage, hu, -⟩ := run_invariant_of (I := Starting pid p)
    (fun u a v hu hP ha => hu.step ha hP.1 hP.2) hstart hall hpre
  obtain ⟨p₁, pid', p₂, hp₁, hstage₁, hne, rfl, hp₂, hname, hfree⟩ := hrace
  cases hu.symm.trans hp₁
  obtain rfl : stage = .opening 1 := hstage₁
  obtain ⟨hlink, hnext⟩ := links_of_mqOpen hstep hp₂ (hname ▸ hfree)
  rw [hname] at hlink
  have hv : v.procs pid = some { p with stage := .opening 1 } := by
    rcases proc_step hstep hu with ⟨b, _, _, hb, -⟩ | ⟨-, hv⟩
    · cases hb
      exact absurd rfl hne
    · exact hv
  have hlosing : Losing pid p u.next v := ⟨by omega, .opening 1, hv, .inl rfl⟩
  obtain ⟨-, stage, ht', hover⟩ := run_invariant (fun _ _ _ hw ha => hw.step ha) hlosing hpost
  cases ht.symm.trans ht'
  refine ⟨pre, pid', post, u, v, rfl, hne, hpre, hu, hstep, hlink, ?_⟩
  rcases hfail with hfail | hfail <;> simp_all [Overtaken]

/-- Launchers 2 and 3 start at the same time and find the name of one that was killed. -/
def twins : NameState := (run nameStep {} [.start 1 .launcher "etl".toList,
  .proc 1 (.mqOpen false), .proc 1 .crash, .start 2 .launcher "etl".toList,
  .start 3 .launcher "etl".toList]).getD {}

def twinStart : List NameAct :=
  [.proc 2 (.mqOpen false), .proc 2 .mqUnlink, .proc 2 .mqUnlink, .proc 3 (.mqOpen false),
    .proc 2 (.mqOpen false), .proc 2 .mqUnlink, .proc 2 .mqUnlink]

/-- When launcher 2 gives up, the queue of launcher 3 has lost its name. -/
theorem startUp_fails_only_if_raced_twins :
    ∃ t pre pid' post u, run nameStep twins twinStart = some t ∧
      twinStart = pre ++ .proc pid' (.mqOpen false) :: post ∧ pid' ≠ 2 ∧
      run nameStep twins pre = some u ∧ t.links "/etl_JLauncher".toList ≠ some u.next := by
  have hrun : run nameStep twins twinStart = some ((run nameStep twins twinStart).getD {}) := rfl
  obtain ⟨pre, pid', post, u, -, has, hne, hpre, -, -, -, hlost⟩ :=
    startUp_fails_only_if_raced (rfl : twins.procs 2 = some _) rfl (by decide) hrun rfl (.inl rfl)
  exact ⟨_, pre, pid', post, u, hrun, has, hne, hpre, hlost⟩

end StartUp

end Spartan
