import Mathlib.Data.Finset.Card
import SpartanLauncher.Registry

/-!
# Draining the child registry

When a supervisor leaves its service loop, `drainKillProcessGroup` signals the process groups of
the children that are still registered. Its loop looks for a key of `_childProcesses` that can be
removed from `all_pids`, which is a stream with a side effect that `findFirst` cuts short; a key
that is positive is then removed from the registry too, and signalled. The loop ends when no key
is found, or when `all_pids` is empty.

**Theorem (`drainKillProcessGroup_drained`).** The loop ends, each positive key was signalled
once and is not registered any more, and the other keys still are.

The measure is `all_pids`, which loses an element in each iteration. The invariant `DrainInv`
says that the positive keys of the registry are in `all_pids`.
-/

namespace Spartan

/-! ## The loop -/

inductive KillException where
  | killProcess
  | killProcessGroup
  deriving DecidableEq

/-- The local state of `drainKillProcessGroup`, with the calls of `killProcessGroupSIGINT` so far.
An element of `all_pids` can be null when the caller passed it. -/
structure DrainState where
  childProcesses : List (ℤ × List Char)
  allPids : Finset (Option ℤ)
  i : ℕ := 1
  signalled : List ℤ := []

/-- `filter(all_pids::remove).findFirst()`: the first key that was in the set, and the set without
it. The keys in front of it were not in the set and the ones behind it are not looked at. -/
def findFirstRemoved (allPids : Finset (Option ℤ)) : List ℤ → Option (ℤ × Finset (Option ℤ))
  | [] => none
  | pid :: pids =>
    if some pid ∈ allPids then some (pid, allPids.erase (some pid))
    else findFirstRemoved allPids pids

-- the order of the stream of keys in each iteration, and which calls throw what
variable (order : DrainState → List ℤ) (kill : ℕ → ℤ → Except KillException Unit)

/-- The `if (childpid > 0)` of the loop. -/
def DrainState.signal (s : DrainState) (childpid : ℤ) : DrainState :=
  if 0 < childpid then
    let s' := { s with
      i := s.i + 1
      childProcesses := childProcessCompletionNotify s.childProcesses childpid
      signalled := s.signalled ++ [childpid] }
    match kill s.i childpid with
    | .ok () => s'
    | .error .killProcess => s'
    | .error .killProcessGroup => s'
  else s

/-- One iteration; `none` for the `break`. -/
def DrainState.next (s : DrainState) : Option DrainState :=
  (findFirstRemoved s.allPids (order s)).map fun found =>
    { s with allPids := found.2 }.signal kill found.1

/-- The loop, with the number of iterations at most. -/
def drainLoop : ℕ → DrainState → Option DrainState
  | 0, _ => none
  | fuel + 1, s =>
    match s.next order kill with
    | none => some s
    | some s' => if 0 < s'.allPids.card then drainLoop fuel s' else some s'

/-- `all_pids`; the collection of a caller can be null. -/
def allPids (childProcesses : List (ℤ × List Char)) (pids : Option (List (Option ℤ))) :
    Finset (Option ℤ) :=
  let all := ((keys childProcesses).map some).toFinset
  match pids with
  | none => all
  | some pids => if 0 < pids.length then all ∪ pids.toFinset else all

def drainKillProcessGroup (fuel : ℕ) (childProcesses : List (ℤ × List Char))
    (pids : Option (List (Option ℤ))) : Option DrainState :=
  let s := { childProcesses, allPids := allPids childProcesses pids }
  if 0 < s.allPids.card then drainLoop order kill fuel s else some s

/-- Each positive key was signalled once, and is the only kind that was removed. -/
structure Drained (childProcesses : List (ℤ × List Char)) (s : DrainState) : Prop where
  nodup : s.signalled.Nodup
  mem_signalled : ∀ pid, pid ∈ s.signalled ↔ 0 < pid ∧ pid ∈ keys childProcesses
  childProcesses_eq : s.childProcesses = childProcesses.filter fun e => e.1 ≤ 0

/-! ## One iteration -/

variable {order kill} {childProcesses : List (ℤ × List Char)} {s s' : DrainState}

theorem findFirstRemoved_eq_none {allPids : Finset (Option ℤ)} {pids : List ℤ}
    (h : findFirstRemoved allPids pids = none) : ∀ pid ∈ pids, some pid ∉ allPids := by
  induction pids with
  | nil => simp
  | cons pid pids ih =>
    unfold findFirstRemoved at h
    split_ifs at h with hmem
    intro k hk
    rcases List.mem_cons.1 hk with rfl | hk
    · exact hmem
    · exact ih h k hk

theorem findFirstRemoved_eq_some {allPids allPids' : Finset (Option ℤ)} {pids : List ℤ} {pid : ℤ}
    (h : findFirstRemoved allPids pids = some (pid, allPids')) :
    pid ∈ pids ∧ some pid ∈ allPids ∧ allPids' = allPids.erase (some pid) := by
  induction pids with
  | nil => cases h
  | cons k pids ih =>
    unfold findFirstRemoved at h
    split_ifs at h with hmem
    · cases h
      exact ⟨List.mem_cons_self, hmem, rfl⟩
    · obtain ⟨hpid, hrest⟩ := ih h
      exact ⟨List.mem_cons_of_mem k hpid, hrest⟩

theorem allPids_signal (childpid : ℤ) : (s.signal kill childpid).allPids = s.allPids := by
  unfold DrainState.signal
  split_ifs
  · split <;> rfl
  · rfl

/-- The exceptions make no difference. -/
theorem signal_of_pos {childpid : ℤ} (hpos : 0 < childpid) :
    s.signal kill childpid =
      { s with
        i := s.i + 1
        childProcesses := childProcessCompletionNotify s.childProcesses childpid
        signalled := s.signalled ++ [childpid] } := by
  rw [DrainState.signal, if_pos hpos]
  split <;> rfl

/-- **What an iteration does** that does not break. -/
theorem next_cases (horder : ∀ s, (order s).Perm (keys s.childProcesses))
    (h : s.next order kill = some s') :
    ∃ pid ∈ keys s.childProcesses, some pid ∈ s.allPids ∧ s'.allPids = s.allPids.erase (some pid) ∧
      ((0 < pid ∧ s'.childProcesses = childProcessCompletionNotify s.childProcesses pid ∧
          s'.signalled = s.signalled ++ [pid]) ∨
        (pid ≤ 0 ∧ s'.childProcesses = s.childProcesses ∧ s'.signalled = s.signalled)) := by
  obtain ⟨⟨pid, pids⟩, hfound, rfl⟩ := Option.map_eq_some_iff.1 h
  obtain ⟨hpid, hmem, hpids⟩ := findFirstRemoved_eq_some hfound
  refine ⟨pid, (horder s).mem_iff.1 hpid, hmem, (allPids_signal pid).trans hpids, ?_⟩
  by_cases hpos : 0 < pid
  · left
    rw [signal_of_pos hpos]
    exact ⟨hpos, rfl, rfl⟩
  · right
    rw [DrainState.signal, if_neg hpos]
    exact ⟨not_lt.1 hpos, rfl, rfl⟩

theorem card_next (horder : ∀ s, (order s).Perm (keys s.childProcesses))
    (h : s.next order kill = some s') : s'.allPids.card < s.allPids.card := by
  obtain ⟨pid, -, hmem, hpids, -⟩ := next_cases horder h
  rw [hpids]
  exact Finset.card_erase_lt_of_mem hmem

/-! ## The invariant -/

/-- Positive keys are still to be found, and the keys that were signalled are gone. -/
structure DrainInv (childProcesses : List (ℤ × List Char)) (s : DrainState) : Prop where
  todo : ∀ pid ∈ keys s.childProcesses, 0 < pid → some pid ∈ s.allPids
  childProcesses_eq : s.childProcesses = childProcesses.filter fun e => e.1 ∉ s.signalled
  nodup : s.signalled.Nodup
  registered : ∀ pid ∈ s.signalled, 0 < pid ∧ pid ∈ keys childProcesses

theorem mem_keys_allPids {pids : Option (List (Option ℤ))} {pid : ℤ}
    (h : pid ∈ keys childProcesses) : some pid ∈ allPids childProcesses pids := by
  have hall : some pid ∈ ((keys childProcesses).map some).toFinset :=
    List.mem_toFinset.2 (List.mem_map_of_mem h)
  unfold allPids
  cases pids with
  | none => exact hall
  | some pids =>
    show some pid ∈ if 0 < pids.length then _ ∪ pids.toFinset else _
    split_ifs
    · exact Finset.mem_union_left _ hall
    · exact hall

theorem drainInv_start (pids : Option (List (Option ℤ))) :
    DrainInv childProcesses { childProcesses, allPids := allPids childProcesses pids } where
  todo _ hpid _ := mem_keys_allPids hpid
  childProcesses_eq := by simp
  nodup := List.nodup_nil
  registered _ hpid := by cases hpid

theorem DrainInv.mem_keys_iff (h : DrainInv childProcesses s) {pid : ℤ} :
    pid ∈ keys s.childProcesses ↔ pid ∈ keys childProcesses ∧ pid ∉ s.signalled := by
  rw [h.childProcesses_eq]
  simp only [keys, List.mem_map, List.mem_filter, decide_eq_true_iff]
  refine ⟨?_, ?_⟩
  · rintro ⟨e, ⟨he, hnot⟩, rfl⟩
    exact ⟨⟨e, he, rfl⟩, hnot⟩
  · rintro ⟨⟨e, he, rfl⟩, hnot⟩
    exact ⟨e, ⟨he, hnot⟩, rfl⟩

/-- The invariant is kept by an iteration. -/
theorem DrainInv.next (horder : ∀ s, (order s).Perm (keys s.childProcesses))
    (h : DrainInv childProcesses s) (hnext : s.next order kill = some s') :
    DrainInv childProcesses s' := by
  obtain ⟨pid, hkey, -, hpids, ⟨hpos, hchildren, hsignalled⟩ | ⟨hneg, hchildren, hsignalled⟩⟩ :=
    next_cases horder hnext
  · obtain ⟨hregistered, hnot⟩ := h.mem_keys_iff.1 hkey
    refine ⟨?_, ?_, ?_, ?_⟩
    · intro k hk hkpos
      rw [hchildren, mem_keys_childProcessCompletionNotify] at hk
      rw [hpids]
      exact Finset.mem_erase.2 ⟨fun heq => hk.2 (Option.some.inj heq), h.todo k hk.1 hkpos⟩
    · rw [hchildren, hsignalled, h.childProcesses_eq, childProcessCompletionNotify,
        List.filter_filter]
      apply List.filter_congr
      intro e _
      simp [and_comm]
    · rw [hsignalled, List.nodup_append]
      refine ⟨h.nodup, List.nodup_singleton pid, ?_⟩
      intro k hk k' hk' heq
      rw [List.mem_singleton] at hk'
      exact hnot (hk' ▸ heq ▸ hk)
    · intro k hk
      rw [hsignalled, List.mem_append, List.mem_singleton] at hk
      rcases hk with hk | rfl
      · exact h.registered k hk
      · exact ⟨hpos, hregistered⟩
  · refine ⟨?_, by rw [hchildren, hsignalled, h.childProcesses_eq], hsignalled ▸ h.nodup,
      hsignalled ▸ h.registered⟩
    intro k hk hkpos
    have hne : k ≠ pid := by
      rintro rfl
      exact absurd hkpos (not_lt.2 hneg)
    rw [hpids]
    exact Finset.mem_erase.2 ⟨fun heq => hne (Option.some.inj heq),
      h.todo k (hchildren ▸ hk) hkpos⟩

/-- The loop is done when no key can be found. -/
theorem DrainInv.drained (h : DrainInv childProcesses s)
    (hdone : ∀ pid ∈ keys s.childProcesses, some pid ∉ s.allPids) : Drained childProcesses s := by
  have hsignalled : ∀ pid, 0 < pid → pid ∈ keys childProcesses → pid ∈ s.signalled := by
    intro pid hpos hkey
    by_contra hnot
    have hleft := h.mem_keys_iff.2 ⟨hkey, hnot⟩
    exact hdone pid hleft (h.todo pid hleft hpos)
  refine ⟨h.nodup, ?_, ?_⟩
  · intro pid
    exact ⟨h.registered pid, fun hpid => hsignalled pid hpid.1 hpid.2⟩
  · rw [h.childProcesses_eq]
    apply List.filter_congr
    intro e he
    rw [decide_eq_decide]
    refine ⟨?_, ?_⟩
    · intro hnot
      by_contra hpos
      exact hnot (hsignalled e.1 (not_le.1 hpos) (List.mem_map_of_mem he))
    · intro hneg hmem
      exact absurd (h.registered e.1 hmem).1 (not_lt.2 hneg)

/-! ## The whole loop -/

theorem drainLoop_drained (kill : ℕ → ℤ → Except KillException Unit)
    (horder : ∀ s, (order s).Perm (keys s.childProcesses)) (bound : ℕ)
    (hinv : DrainInv childProcesses s) (hcard : s.allPids.card ≤ bound)
    (hpos : 0 < s.allPids.card) :
    ∃ s', (∀ fuel, s.allPids.card ≤ fuel → drainLoop order kill fuel s = some s') ∧
      Drained childProcesses s' := by
  induction bound generalizing s with
  | zero => omega
  | succ bound ih =>
    have hfuel : ∀ fuel, s.allPids.card ≤ fuel → ∃ m, fuel = m + 1 := by
      intro fuel hle
      exact ⟨fuel - 1, by omega⟩
    cases hnext : s.next order kill with
    | none =>
      have hnone := findFirstRemoved_eq_none (Option.map_eq_none_iff.1 hnext)
      refine ⟨s, ?_, hinv.drained fun pid hpid => hnone pid ((horder s).mem_iff.2 hpid)⟩
      intro fuel hle
      obtain ⟨m, rfl⟩ := hfuel fuel hle
      simp only [drainLoop, hnext]
    | some t =>
      have hless := card_next horder hnext
      have hinv := hinv.next horder hnext
      by_cases hmore : 0 < t.allPids.card
      · obtain ⟨s', hloop, hdrained⟩ := ih hinv (by omega) hmore
        refine ⟨s', ?_, hdrained⟩
        intro fuel hle
        obtain ⟨m, rfl⟩ := hfuel fuel hle
        simp only [drainLoop, hnext, if_pos hmore]
        exact hloop m (by omega)
      · have hempty : t.allPids = ∅ := Finset.card_eq_zero.1 (by omega)
        refine ⟨t, ?_, hinv.drained fun pid _ => by simp [hempty]⟩
        intro fuel hle
        obtain ⟨m, rfl⟩ := hfuel fuel hle
        simp only [drainLoop, hnext, if_neg hmore]

/-- **Draining the registry** ends with each positive key signalled once, in whatever order the
keys are found and whichever calls throw. -/
theorem drainKillProcessGroup_drained (horder : ∀ s, (order s).Perm (keys s.childProcesses))
    (childProcesses : List (ℤ × List Char)) (pids : Option (List (Option ℤ))) :
    ∃ s, (∀ fuel, (allPids childProcesses pids).card ≤ fuel →
        drainKillProcessGroup order kill fuel childProcesses pids = some s) ∧
      Drained childProcesses s := by
  have hinv : DrainInv childProcesses { childProcesses, allPids := allPids childProcesses pids } :=
    drainInv_start pids
  by_cases hpos : 0 < (allPids childProcesses pids).card
  · obtain ⟨s, hloop, hdrained⟩ := drainLoop_drained kill horder _ hinv le_rfl hpos
    refine ⟨s, ?_, hdrained⟩
    intro fuel hle
    simp only [drainKillProcessGroup, if_pos hpos]
    exact hloop fuel hle
  · have hempty : allPids childProcesses pids = ∅ := Finset.card_eq_zero.1 (by omega)
    refine ⟨_, ?_, hinv.drained fun pid _ => by simp [hempty]⟩
    intro fuel _
    simp only [drainKillProcessGroup, if_neg hpos]

/-- Two children and an entry that is no pid; the caller passes one of them, another pid, and a
null; every call throws. -/
theorem drainKillProcessGroup_drained_two :
    ∃ s, drainKillProcessGroup (fun s => keys s.childProcesses) (fun _ _ => .error .killProcess) 5
        [(5, ['a']), (-3, []), (7, ['b'])] (some [some 5, some 9, none]) = some s ∧
      Drained [(5, ['a']), (-3, []), (7, ['b'])] s := by
  obtain ⟨s, hloop, hdrained⟩ := @drainKillProcessGroup_drained (fun s => keys s.childProcesses)
    (fun _ _ => .error .killProcess) (fun _ => List.Perm.refl _)
    [(5, ['a']), (-3, []), (7, ['b'])] (some [some 5, some 9, none])
  exact ⟨s, hloop 5 (by decide), hdrained⟩

end Spartan
