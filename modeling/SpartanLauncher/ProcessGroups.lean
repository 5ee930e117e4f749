import SpartanLauncher.Launcher

/-!
# Process groups of the sub-commands

`handle_launcher_msg` remembers in `prcs_grps` the process that was first forked for a command,
for as long as the launcher runs, and puts every later process of the command into the group with
that number. It does not look at the result of `setpgid`.

**Theorem (`processGroups_sound_iff`).** In a run, the groups of the live children are those of
their commands in all states exactly when each `setpgid` finds the remembered group usable: it
still has a member, and no live member of another command.

The proof has the invariant `GroupInv` for the steps that meet this condition
(`groupInv_step`); `not_sound_of_unusable` shows that the first step that does not meet it ends
in an unsound state.
-/

namespace Spartan

open Machine

/-! ## Soundness -/

/-- The live children of a command that were put into their group. -/
def instances (s : LauncherState) (cmd : List Char) : List Child :=
  s.children.filter fun c => c.live && (c.grouped && decide (c.cmd = cmd))

structure GroupsSound (cfg : LauncherCfg) (s : LauncherState) : Prop where
  off_launcher : ∀ c ∈ s.children, c.live = true → c.grouped = true → c.pgid ≠ cfg.launcherPgid
  /-- The live children of one command are in one group. -/
  common : ∀ c ∈ s.children, c.live = true → c.grouped = true →
    ∀ c' ∈ s.children, c'.live = true → c'.grouped = true → c'.cmd = c.cmd → c'.pgid = c.pgid
  /-- No live child of another command is in that group. -/
  separate : ∀ c ∈ s.children, c.live = true → c.grouped = true →
    ∀ c' ∈ s.children, c'.live = true → c'.pgid = c.pgid → c'.cmd = c.cmd
  /-- The signal sent to the group of a child reaches the instances of its command. -/
  killpg : ∀ c ∈ s.children, c.live = true → c.grouped = true →
    killpgHelper s.children c.pid = some (instances s c.cmd)

/-- What a `setpgid` step needs of a remembered group: the system call succeeds for the child if
it is still alive, and no live process of another command is in the group. -/
def RememberedGroupUsable (s : LauncherState) (a : LauncherAct) : Prop :=
  match a, s.handler with
  | .setpgid, .forked pid cmd _ => ∀ pgid ∈ s.prcsGrps.lookup cmd,
      (∃ c ∈ s.children, c.pid = pid ∧ c.live = true) →
        (pgid = pid ∨ ∃ c ∈ s.children, c.pgid = pgid) ∧
        ∀ c ∈ s.children, c.live = true → c.pgid = pgid → c.cmd = cmd
  | _, _ => True

instance (s : LauncherState) (a : LauncherAct) : Decidable (RememberedGroupUsable s a) := by
  unfold RememberedGroupUsable
  split <;> infer_instance

/-! ## The invariant -/

structure GroupInv (cfg : LauncherCfg) (s : LauncherState) : Prop where
  nodup : (s.children.map Child.pid).Nodup
  /-- A child without its group is the one that is being handled. -/
  ungrouped : ∀ c ∈ s.children, c.grouped = false →
    c.pgid = cfg.launcherPgid ∧ ∃ msg, s.handler = .forked c.pid c.cmd msg
  handling : ∀ pid cmd msg, s.handler = .forked pid cmd msg → pid ≠ cfg.launcherPgid ∧
    ∀ c ∈ s.children, c.pgid ≠ pid ∧ (c.pid = pid → c.cmd = cmd ∧ c.grouped = false)
  remembered : ∀ cmd pgid, s.prcsGrps.lookup cmd = some pgid → pgid ≠ cfg.launcherPgid
  recorded : ∀ c ∈ s.children, c.live = true → c.grouped = true →
    s.prcsGrps.lookup c.cmd = some c.pgid
  separate : ∀ c ∈ s.children, c.live = true → c.grouped = true →
    ∀ c' ∈ s.children, c'.live = true → c'.grouped = true → c'.pgid = c.pgid → c'.cmd = c.cmd

variable {cfg : LauncherCfg} {s t : LauncherState} {a : LauncherAct}

theorem groupInv_init : GroupInv cfg {} := by constructor <;> simp

namespace GroupInv

theorem off_launcher (hs : GroupInv cfg s) {c : Child} (hc : c ∈ s.children)
    (hlive : c.live = true) (hgrouped : c.grouped = true) : c.pgid ≠ cfg.launcherPgid :=
  hs.remembered _ _ (hs.recorded c hc hlive hgrouped)

/-- The live members of the group of a child are the instances of its command. -/
theorem mem_group_iff (hs : GroupInv cfg s) {c c' : Child} (hc : c ∈ s.children)
    (hlive : c.live = true) (hgrouped : c.grouped = true) (hc' : c' ∈ s.children)
    (hlive' : c'.live = true) : c'.pgid = c.pgid ↔ c'.grouped = true ∧ c'.cmd = c.cmd := by
  refine ⟨?_, ?_⟩
  · intro hpgid
    have hgrouped' : c'.grouped = true := by
      by_contra h
      rw [Bool.not_eq_true] at h
      exact hs.off_launcher hc hlive hgrouped (hpgid ▸ (hs.ungrouped c' hc' h).1)
    exact ⟨hgrouped', hs.separate c hc hlive hgrouped c' hc' hlive' hgrouped' hpgid⟩
  · intro h
    obtain ⟨hgrouped', hcmd⟩ := h
    have h := hs.recorded c' hc' hlive' hgrouped'
    rw [hcmd, hs.recorded c hc hlive hgrouped] at h
    exact (Option.some.inj h).symm

theorem sound (hs : GroupInv cfg s) : GroupsSound cfg s where
  off_launcher c hc hlive hgrouped := hs.off_launcher hc hlive hgrouped
  common c hc hlive hgrouped c' hc' hlive' hgrouped' hcmd :=
    (hs.mem_group_iff hc hlive hgrouped hc' hlive').2 ⟨hgrouped', hcmd⟩
  separate c hc hlive hgrouped c' hc' hlive' hpgid :=
    ((hs.mem_group_iff hc hlive hgrouped hc' hlive').1 hpgid).2
  killpg c hc hlive hgrouped := by
    rw [killpgHelper, find_pid hs.nodup hc, Option.map_some, instances]
    refine congrArg some (List.filter_congr ?_)
    intro c' hc'
    by_cases hlive' : c'.live = true
    · have := hs.mem_group_iff hc hlive hgrouped hc' hlive'
      by_cases hgrouped' : c'.grouped = true <;> simp_all
    · simp [hlive']

end GroupInv

/-! ## What one step keeps -/

/-- The steps that leave the groups alone: children may exit or go. -/
theorem groupInv_frame (hs : GroupInv cfg s) (hnodup : (t.children.map Child.pid).Nodup)
    (hchildren : ∀ c ∈ t.children, ∃ c' ∈ s.children, c'.pid = c.pid ∧ c'.pgid = c.pgid ∧
      c'.cmd = c.cmd ∧ c'.grouped = c.grouped ∧ (c.live = true → c'.live = true))
    (hhandler : ∀ pid cmd msg, t.handler = .forked pid cmd msg ↔ s.handler = .forked pid cmd msg)
    (hgrps : t.prcsGrps = s.prcsGrps) : GroupInv cfg t := by
  refine ⟨hnodup, ?_, ?_, ?_, ?_, ?_⟩
  · intro c hc hgrouped
    obtain ⟨c', hc', hpid, hpgid, hcmd, hg, -⟩ := hchildren c hc
    obtain ⟨hlauncher, msg, hh⟩ := hs.ungrouped c' hc' (hg.trans hgrouped)
    exact ⟨hpgid ▸ hlauncher, msg, (hhandler _ _ _).2 (hpid ▸ hcmd ▸ hh)⟩
  · intro pid cmd msg hh
    obtain ⟨hne, h⟩ := hs.handling pid cmd msg ((hhandler _ _ _).1 hh)
    refine ⟨hne, ?_⟩
    intro c hc
    obtain ⟨c', hc', hpid, hpgid, hcmd, hg, -⟩ := hchildren c hc
    rw [← hpid, ← hpgid, ← hcmd, ← hg]
    exact h c' hc'
  · rw [hgrps]
    exact hs.remembered
  · intro c hc hlive hgrouped
    obtain ⟨c', hc', -, hpgid, hcmd, hg, hl⟩ := hchildren c hc
    rw [hgrps, ← hpgid, ← hcmd]
    exact hs.recorded c' hc' (hl hlive) (hg.trans hgrouped)
  · intro c hc hlive hgrouped c₂ hc₂ hlive₂ hgrouped₂ hpgid
    obtain ⟨c', hc', -, hp, hcmd, hg, hl⟩ := hchildren c hc
    obtain ⟨c₂', hc₂', -, hp₂, hcmd₂, hg₂, hl₂⟩ := hchildren c₂ hc₂
    rw [← hcmd, ← hcmd₂]
    exact hs.separate c' hc' (hl hlive) (hg.trans hgrouped) c₂' hc₂' (hl₂ hlive₂)
      (hg₂.trans hgrouped₂) (hp₂.trans (hpgid.trans hp.symm))

/-- The new child starts in the launcher's group. -/
theorem groupInv_forked (hs : GroupInv cfg s) {pid : Pid} {cmd msg : List Char}
    {d : DispatchState (List Char)} {forks : List Pid} (hhandler : s.handler = .idle)
    (hfresh : isFresh cfg s.children pid = true) :
    GroupInv cfg { s with
      dispatch := d
      handler := .forked pid cmd msg
      children := ⟨pid, cfg.launcherPgid, cmd, false, true⟩ :: s.children
      forks := forks } := by
  obtain ⟨hne, hnew⟩ := isFresh_iff.1 hfresh
  have hall : ∀ c ∈ s.children, c.grouped = true := fun c hc => by
    by_contra h
    obtain ⟨-, msg, hh⟩ := hs.ungrouped c hc (by simpa using h)
    rw [hhandler] at hh
    cases hh
  refine ⟨?_, ?_, ?_, hs.remembered, ?_, ?_⟩
  · rw [List.map_cons, List.nodup_cons]
    refine ⟨?_, hs.nodup⟩
    intro hmem
    obtain ⟨c, hc, hpid⟩ := mem_pids.1 hmem
    exact (hnew c hc).2 hpid
  · intro c hc hgrouped
    rcases List.mem_cons.1 hc with rfl | hc
    · exact ⟨rfl, msg, rfl⟩
    · rw [hall c hc] at hgrouped
      cases hgrouped
  · intro p cmd' msg' hh
    cases hh
    refine ⟨hne, ?_⟩
    intro c hc
    rcases List.mem_cons.1 hc with rfl | hc
    · exact ⟨hne.symm, fun _ => ⟨rfl, rfl⟩⟩
    · exact ⟨(hnew c hc).1, fun h => absurd h (hnew c hc).2⟩
  · intro c hc hlive hgrouped
    rcases List.mem_cons.1 hc with rfl | hc
    · cases hgrouped
    · exact hs.recorded c hc hlive hgrouped
  · intro c hc hlive hgrouped c₂ hc₂ hlive₂ hgrouped₂ hpgid
    rcases List.mem_cons.1 hc with rfl | hc
    · cases hgrouped
    · rcases List.mem_cons.1 hc₂ with rfl | hc₂
      · cases hgrouped₂
      · exact hs.separate c hc hlive hgrouped c₂ hc₂ hlive₂ hgrouped₂ hpgid

/-- The child that is being handled goes into a group that has no live member of another
command. The group is, or becomes, the one remembered for its command. -/
theorem groupInv_grouped (hs : GroupInv cfg s) {pid pgid : Pid} {cmd msg : List Char}
    {prcsGrps : List (List Char × Pid)} (hhandler : s.handler = .forked pid cmd msg)
    (hgrp : prcsGrps.lookup cmd = some pgid)
    (hgrps : ∀ cmd' pgid', prcsGrps.lookup cmd' = some pgid' →
      s.prcsGrps.lookup cmd' = some pgid' ∨ cmd' = cmd ∧ pgid' = pid)
    (hkept : ∀ cmd' pgid', s.prcsGrps.lookup cmd' = some pgid' →
      prcsGrps.lookup cmd' = some pgid')
    (husable : (∃ c ∈ s.children, c.pid = pid ∧ c.live = true) →
      (pgid = pid ∨ ∃ c ∈ s.children, c.pgid = pgid) ∧
        ∀ c ∈ s.children, c.live = true → c.pgid = pgid → c.cmd = cmd) :
    GroupInv cfg { s with
      handler := .grouped pid cmd msg
      children := setpgid cfg s.children pid pgid
      prcsGrps := prcsGrps } := by
  obtain ⟨hne, hhandling⟩ := hs.handling pid cmd msg hhandler
  -- a grouped live child was so before, or is the one that is being handled
  have hmem : ∀ c ∈ setpgid cfg s.children pid pgid, c.live = true → c.grouped = true →
      (c ∈ s.children ∧ c.pid ≠ pid) ∨
        (c.cmd = cmd ∧ c.pgid = pgid ∧ ∀ c' ∈ s.children, c'.live = true → c'.pgid = pgid →
          c'.cmd = cmd) := by
    intro c hc hlive _
    obtain ⟨c', hc', rfl⟩ := List.mem_map.1 hc
    by_cases hpid : c'.pid = pid
    · rw [if_pos hpid] at hlive ⊢
      obtain ⟨hok, hown⟩ := husable ⟨c', hc', hpid, hlive⟩
      have hset : (decide (pgid = pid) || groupExists cfg s.children pgid) = true := by
        rw [Bool.or_eq_true, decide_eq_true_eq, groupExists_iff]
        exact hok.imp_right .inr
      exact .inr ⟨((hhandling c' hc').2 hpid).1, if_pos hset, hown⟩
    · rw [if_neg hpid]
      exact .inl ⟨hc', hpid⟩
  refine ⟨by simpa using hs.nodup, ?_, nofun, ?_, ?_, ?_⟩
  · intro c hc hgrouped
    obtain ⟨c', hc', rfl⟩ := List.mem_map.1 hc
    by_cases hpid : c'.pid = pid
    · simp [hpid] at hgrouped
    · rw [if_neg hpid] at hgrouped
      obtain ⟨-, msg', hh⟩ := hs.ungrouped c' hc' hgrouped
      rw [hhandler] at hh
      cases hh
      exact absurd rfl hpid
  · intro cmd' pgid' h
    rcases hgrps cmd' pgid' h with h | ⟨rfl, rfl⟩
    · exact hs.remembered cmd' pgid' h
    · exact hne
  · intro c hc hlive hgrouped
    rcases hmem c hc hlive hgrouped with ⟨hc, -⟩ | ⟨hcmd, hpgid, -⟩
    · exact hkept _ _ (hs.recorded c hc hlive hgrouped)
    · rw [hcmd, hpgid]
      exact hgrp
  · intro c hc hlive hgrouped c₂ hc₂ hlive₂ hgrouped₂ hpgid
    rcases hmem c hc hlive hgrouped with ⟨hc, -⟩ | ⟨hcmd, hpg, hown⟩ <;>
      rcases hmem c₂ hc₂ hlive₂ hgrouped₂ with ⟨hc₂, -⟩ | ⟨hcmd₂, hpg₂, hown₂⟩
    · exact hs.separate c hc hlive hgrouped c₂ hc₂ hlive₂ hgrouped₂ hpgid
    · rw [hcmd₂, hown₂ c hc hlive (hpgid.symm.trans hpg₂)]
    · rw [hcmd, hown c₂ hc₂ hlive₂ (hpgid.trans hpg)]
    · rw [hcmd, hcmd₂]

/-- **Step lemma.** -/
theorem groupInv_step (hs : GroupInv cfg s) (h : Trans cfg s a t)
    (husable : RememberedGroupUsable s a) : GroupInv cfg t := by
  have hnodup := pids_nodup_step hs.nodup h
  have hself : ∀ c ∈ s.children, ∃ c' ∈ s.children, c'.pid = c.pid ∧ c'.pgid = c.pgid ∧
      c'.cmd = c.cmd ∧ c'.grouped = c.grouped ∧ (c.live = true → c'.live = true) :=
    fun c hc => ⟨c, hc, rfl, rfl, rfl, rfl, id⟩
  cases h with
  | forked hhandler _ _ hfresh => exact groupInv_forked hs hhandler hfresh
  | @newGroup pid cmd msg hhandler hgrp =>
    refine groupInv_grouped hs hhandler (by simp) ?_ ?_ fun _ => ⟨.inl rfl, ?_⟩
    · intro cmd' pgid' h
      by_cases hcmd : cmd' = cmd
      · subst hcmd
        simp only [List.lookup_cons_self, Option.some.injEq] at h
        exact .inr ⟨rfl, h.symm⟩
      · rw [List.lookup_cons, beq_eq_false_iff_ne.2 hcmd] at h
        exact .inl h
    · intro cmd' pgid' h
      have hcmd : cmd' ≠ cmd := by
        rintro rfl
        rw [hgrp] at h
        cases h
      rw [List.lookup_cons, beq_eq_false_iff_ne.2 hcmd]
      exact h
    · intro c hc _ hpgid
      exact absurd hpgid (((hs.handling pid cmd msg hhandler).2 c hc).1)
  | joinGroup hhandler hgrp =>
    unfold RememberedGroupUsable at husable
    rw [hhandler] at husable
    exact groupInv_grouped hs hhandler hgrp (fun _ _ h => .inl h) (fun _ _ h => h)
      (husable _ hgrp)
  | notify hhandler => exact groupInv_frame hs hnodup hself (by simp [hhandler]) rfl
  | exit =>
    refine groupInv_frame hs hnodup ?_ (by simp) rfl
    intro c hc
    obtain ⟨c', hc', rfl⟩ := List.mem_map.1 hc
    refine ⟨c', hc', ?_⟩
    split_ifs <;> simp
  | waitExited =>
    exact groupInv_frame hs hnodup (fun c hc => hself c (mem_reap.1 hc).1) (by simp) rfl
  | _ => exact groupInv_frame hs hnodup hself (by simp) rfl

/-- The call of `setpgid` on a group that is not usable: it fails, and the child stays in the
launcher's group, or it puts the child among the processes of another command. -/
theorem not_sound_of_unusable (hs : GroupInv cfg s) (h : Trans cfg s a t)
    (hunusable : ¬ RememberedGroupUsable s a) : ¬ GroupsSound cfg t := by
  intro hsound
  unfold RememberedGroupUsable at hunusable
  cases h with
  | newGroup hhandler hgrp =>
    rw [hhandler] at hunusable
    simp [hgrp] at hunusable
  | @joinGroup pid cmd msg pgid hhandler hgrp =>
    rw [hhandler] at hunusable
    simp only [hgrp, Option.mem_some_iff, forall_eq', Classical.not_imp] at hunusable
    obtain ⟨⟨c, hc, hpid, hlive⟩, hunusable⟩ := hunusable
    obtain ⟨-, hhandling⟩ := hs.handling pid cmd msg hhandler
    obtain ⟨hcmd, hgrouped⟩ := (hhandling c hc).2 hpid
    have hmem := List.mem_map_of_mem (f := fun c =>
      if c.pid = pid then
        { c with
          grouped := true
          pgid := if pgid = pid || groupExists cfg s.children pgid then pgid else c.pgid }
      else c) hc
    rw [if_pos hpid] at hmem
    by_cases hok : pgid = pid ∨ ∃ c ∈ s.children, c.pgid = pgid
    · have hother : ∃ c' ∈ s.children, c'.live = true ∧ c'.pgid = pgid ∧ c'.cmd ≠ cmd := by
        by_contra hall
        push Not at hall
        exact hunusable ⟨hok, hall⟩
      obtain ⟨c', hc', hlive', hpgid', hcmd'⟩ := hother
      have hne : c'.pid ≠ pid := fun hpid' => hcmd' ((hhandling c' hc').2 hpid').1
      have hset : (decide (pgid = pid) || groupExists cfg s.children pgid) = true := by
        rw [Bool.or_eq_true, decide_eq_true_eq, groupExists_iff]
        exact hok.imp_right .inr
      have hmem' : c' ∈ setpgid cfg s.children pid pgid :=
        List.mem_map.2 ⟨c', hc', if_neg hne⟩
      refine hcmd' ((hsound.separate _ hmem hlive rfl c' hmem' hlive' ?_).trans hcmd)
      simp only [hset, if_true, hpgid']
    · push Not at hok
      have hset : (decide (pgid = pid) || groupExists cfg s.children pgid) = false := by
        rw [← Bool.not_eq_true, Bool.or_eq_true, decide_eq_true_eq, groupExists_iff]
        rintro (h | h | ⟨c', hc', h⟩)
        · exact hok.1 h
        · exact hs.remembered cmd pgid hgrp h
        · exact hok.2 c' hc' h
      apply hsound.off_launcher _ hmem hlive rfl
      simp only [hset, Bool.false_eq_true, if_false]
      exact (hs.ungrouped c hc hgrouped).1
  | _ => exact hunusable trivial

/-! ## Runs -/

theorem run_sound_iff {as : List LauncherAct} (hs : GroupInv cfg s)
    (hrun : run (launcherStep cfg) s as = some t) :
    Throughout (launcherStep cfg) (GroupsSound cfg) s as ↔
      Always (launcherStep cfg) RememberedGroupUsable s as := by
  induction as generalizing s with
  | nil => simpa [throughout_nil_iff, Always] using hs.sound
  | cons a as ih =>
    obtain ⟨u, hu, htail⟩ := run_cons_eq_some.1 hrun
    rw [throughout_cons_iff hu, always_cons_iff hu]
    by_cases husable : RememberedGroupUsable s a
    · rw [ih (groupInv_step hs (trans_of_step hu) husable) htail]
      exact ⟨fun h => ⟨husable, h.2⟩, fun h => ⟨hs.sound, h.2⟩⟩
    · have hunsound := not_sound_of_unusable hs (trans_of_step hu) husable
      exact ⟨fun h => absurd (h.2 [] u List.nil_prefix rfl) hunsound,
        fun h => absurd h.1 husable⟩

/-- **Soundness of the process groups.** -/
theorem processGroups_sound_iff (cfg : LauncherCfg) (as : List LauncherAct) {t : LauncherState}
    (hrun : run (launcherStep cfg) {} as = some t) :
    Throughout (launcherStep cfg) (GroupsSound cfg) {} as ↔
      Always (launcherStep cfg) RememberedGroupUsable {} as :=
  run_sound_iff groupInv_init hrun

/-- The second process of a command joins the group while the first one is a zombie. -/
theorem processGroups_sound_two :
    let cfg : LauncherCfg := ⟨⟨1, by decide, by decide⟩, 10⟩
    let p : Pid := ⟨100, by decide, by decide⟩
    let q : Pid := ⟨101, by decide, by decide⟩
    let as : List LauncherAct :=
      [.dispatch (.enQueue "- u a".toList), .dispatch (.enQueue "- u a".toList),
        .dispatch .wait, .dispatch .take, .fork (some p), .setpgid, .notify, .exit p,
        .fork (some q), .setpgid]
    (run (launcherStep cfg) {} as).isSome = true ∧
      Throughout (launcherStep cfg) (GroupsSound cfg) {} as := by
  intro cfg p q as
  have hsome : (run (launcherStep cfg) {} as).isSome = true := by decide +kernel
  refine ⟨hsome, ?_⟩
  exact (processGroups_sound_iff cfg as (Option.some_get hsome).symm).2 (by decide +kernel)

/-- The command is run again after its whole group has died: the child stays in the group of the
launcher. -/
theorem processGroups_unsound :
    let cfg : LauncherCfg := ⟨⟨1, by decide, by decide⟩, 10⟩
    let p : Pid := ⟨100, by decide, by decide⟩
    let q : Pid := ⟨101, by decide, by decide⟩
    let as : List LauncherAct :=
      [.dispatch (.enQueue "- u a".toList), .dispatch .wait, .dispatch .take, .fork (some p),
        .setpgid, .notify, .exit p, .waitExited p, .completion true, .completionNotify,
        .dispatch (.enQueue "- u a".toList), .dispatch .wait, .dispatch .take, .fork (some q),
        .setpgid, .notify]
    ∃ t, run (launcherStep cfg) {} as = some t ∧ ¬ GroupsSound cfg t := by
  intro cfg p q as
  have hrun : (run (launcherStep cfg) {} as).map LauncherState.children =
      some [⟨q, cfg.launcherPgid, "a".toList, true, true⟩] := by decide +kernel
  obtain ⟨t, ht, hchildren⟩ := Option.map_eq_some_iff.1 hrun
  refine ⟨t, ht, ?_⟩
  intro hsound
  exact hsound.off_launcher _ (hchildren ▸ List.mem_cons_self) rfl rfl rfl

end Spartan
