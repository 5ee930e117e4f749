import Mathlib.Data.List.ProdSigma
import Mathlib.Data.List.Nodup
import SpartanLauncher.Lib.Machine

/-!
# The builder of a flow

`Flow.subscribe` makes a subscriber for a child process. On a subscriber, `onError` and `onNext`
set a callback and append a task to the list that all subscribers of the flow share, `subscribe`
makes one more subscriber, and `start` submits the whole list. `validateInit` is called in
`subscribe` and in `start`, and looks at the callbacks of its own subscriber only.

The calls may come in any order, on any of the subscribers that are there; a run is a list of
them. A call that throws leaves the flow as it is, but for `subscribeDisabled`.

**Theorem (`started_flow_complete_iff`).** A flow that was started has one task for each of the
two streams of each child exactly when `onError` and `onNext` were called once on each
subscriber.
-/

namespace Spartan

open Machine

/-! ## The builder -/

/-- The streams of an `InvokeResponseEx` that a task can consume. -/
inductive ChildStream where
  | errStream
  | inStream
  deriving DecidableEq

variable {R A : Type}

/-- A `Subscriber`. `R` are the references to `InvokeResponseEx`, `A` the callbacks of the clients;
`none` is `noopAction`, which is private to the flow. -/
structure Subscriber (R A : Type) where
  rsp : R
  onErrorAction : Option A := none
  onNextAction : Option A := none
  deriving DecidableEq

/-- A `callableTask`: the callback is applied to a stream of the child and to the subscription of
the subscriber, which is known by the index of the subscriber. -/
structure CallableTask (R A : Type) where
  rsp : R
  stream : ChildStream
  action : A
  subscription : ℕ
  deriving DecidableEq

/-- A flow, with the subscribers that were obtained and what its executor was given. -/
structure Flow (R A : Type) where
  subscribers : List (Subscriber R A) := []
  taskList : List (CallableTask R A) := []
  subscribeDisabled : Bool := false
  submitted : List (CallableTask R A) := []
  deriving DecidableEq

def Flow.makeSubscriber (flow : Flow R A) (rsp : R) : Flow R A :=
  { flow with subscribers := flow.subscribers ++ [{ rsp }] }

/-- `validateInit`; the texts are those of the `AssertionError`s. -/
def Subscriber.validateInit (self : Subscriber R A) : Except (List Char) Unit :=
  if self.onErrorAction.isNone then .error "onErrorAction callback not initialized".toList
  else if self.onNextAction.isNone then .error "onNextAction callback not initialized".toList
  else .ok ()

/-- What `onError` and `onNext` have in common: `self` is the subscriber with its callback set. -/
def Flow.addTask (flow : Flow R A) (k : ℕ) (self : Subscriber R A) (stream : ChildStream)
    (action : A) : Flow R A :=
  { flow with
    subscribers := flow.subscribers.set k self
    taskList := flow.taskList ++ [{ rsp := self.rsp, stream, action, subscription := k }] }

def Flow.onError (flow : Flow R A) (k : ℕ) (self : Subscriber R A) (onErrorAction : A) :
    Flow R A :=
  flow.addTask k { self with onErrorAction := some onErrorAction } .errStream onErrorAction

def Flow.onNext (flow : Flow R A) (k : ℕ) (self : Subscriber R A) (onNextAction : A) :
    Flow R A :=
  flow.addTask k { self with onNextAction := some onNextAction } .inStream onNextAction

def Flow.subscribe [DecidableEq R] (flow : Flow R A) (self : Subscriber R A) (rsp2 : R) :
    Except (List Char) (Flow R A) :=
  if flow.subscribeDisabled then
    .error "cannot add new subscriptions after start() method invoked".toList
  else
    match self.validateInit with
    | .error message => .error message
    | .ok () =>
      if self.rsp = rsp2 then
        .error "atttempting to subscribe with the same InvokeResponseEx instance again".toList
      else .ok (flow.makeSubscriber rsp2)

/-- `start`: `count()` of the `FuturesCompletion`, and the flow, also when it throws. -/
def Flow.start (flow : Flow R A) (self : Subscriber R A) : Except (List Char) ℕ × Flow R A :=
  let flow := { flow with subscribeDisabled := true }
  match self.validateInit with
  | .error message => (.error message, flow)
  | .ok () =>
    (.ok flow.taskList.length,
      { flow with submitted := flow.submitted ++ flow.taskList, taskList := [] })

/-! ## Runs -/

/-- The calls of a client; the number is that of the subscriber. -/
inductive FlowCall (R A : Type) where
  | onError (k : ℕ) (onErrorAction : A)
  | onNext (k : ℕ) (onNextAction : A)
  | subscribe (k : ℕ) (rsp2 : R)
  | start (k : ℕ)
  deriving DecidableEq

def FlowCall.subscriber : FlowCall R A → ℕ
  | .onError k _ => k
  | .onNext k _ => k
  | .subscribe k _ => k
  | .start k => k

/-- A flow, and the counts of the `FuturesCompletion`s that were returned. -/
structure FlowRun (R A : Type) where
  flow : Flow R A
  completions : List ℕ := []
  deriving DecidableEq

/-- `Flow.subscribe(rsp)`, the static one. -/
def FlowRun.make (rsp : R) : FlowRun R A := { flow := Flow.makeSubscriber {} rsp }

def FlowRun.call [DecidableEq R] (run : FlowRun R A) (self : Subscriber R A) :
    FlowCall R A → FlowRun R A
  | .onError k onErrorAction => { run with flow := run.flow.onError k self onErrorAction }
  | .onNext k onNextAction => { run with flow := run.flow.onNext k self onNextAction }
  | .subscribe _ rsp2 =>
    match run.flow.subscribe self rsp2 with
    | .error _ => run
    | .ok flow => { run with flow }
  | .start _ =>
    match run.flow.start self with
    | (.error _, flow) => { run with flow }
    | (.ok count, flow) => { flow, completions := run.completions ++ [count] }

/-- A call on a subscriber that was obtained before. -/
def FlowRun.step [DecidableEq R] (run : FlowRun R A) (call : FlowCall R A) : Option (FlowRun R A) :=
  run.flow.subscribers[call.subscriber]?.map fun self => run.call self call

/-- The `InvokeResponseEx` of a call of `subscribe`. -/
def FlowCall.newRsp : FlowCall R A → Option R
  | .subscribe _ rsp2 => some rsp2
  | _ => none

/-- Does the call set the callback of the subscriber `k` for this stream? -/
def FlowCall.sets (stream : ChildStream) (k : ℕ) : FlowCall R A → Bool
  | .onError j _ => j = k ∧ .errStream = stream
  | .onNext j _ => j = k ∧ .inStream = stream
  | _ => false

/-- Each child has one task for each stream, and the count is that of the tasks. -/
structure Flow.Complete [DecidableEq R] (flow : Flow R A) (count : ℕ) : Prop where
  one : ∀ sub ∈ flow.subscribers, ∀ stream,
    flow.submitted.countP (fun task => task.rsp = sub.rsp ∧ task.stream = stream) = 1
  count_eq : count = flow.submitted.length
  twice : count = 2 * flow.subscribers.length

/-- `onError` and `onNext` were called once on each of the subscribers. -/
def CallbacksSetOnce (calls : List (FlowCall R A)) (subscribers : ℕ) : Prop :=
  ∀ k < subscribers, ∀ stream, calls.countP (FlowCall.sets stream k) = 1

/-! ## One call -/

/-- The children of the subscribers. -/
def Flow.rsps (flow : Flow R A) : List R := flow.subscribers.map Subscriber.rsp

/-- What the calls have left in a flow that was not started. -/
structure Flow.Collected (rsp : R) (calls : List (FlowCall R A)) (flow : Flow R A) : Prop where
  submitted : flow.submitted = []
  tasks : ∀ stream k, flow.taskList.countP (fun task =>
    task.subscription = k ∧ task.stream = stream) = calls.countP (FlowCall.sets stream k)
  owner : ∀ task ∈ flow.taskList, flow.rsps[task.subscription]? = some task.rsp
  rsps : flow.rsps.Sublist (rsp :: calls.filterMap FlowCall.newRsp)

variable {rsp rsp2 : R} {calls : List (FlowCall R A)} {call : FlowCall R A} {flow flow' : Flow R A}
  {self self' : Subscriber R A} {k count : ℕ}

theorem collected_make (rsp : R) : (Flow.makeSubscriber {} rsp : Flow R A).Collected rsp [] where
  submitted := rfl
  tasks stream k := rfl
  owner task htask := by cases htask
  rsps := List.Sublist.refl [rsp]

theorem rsps_addTask {stream : ChildStream} {action : A}
    (hself : flow.subscribers[k]? = some self) (hrsp : self'.rsp = self.rsp) :
    (flow.addTask k self' stream action).rsps = flow.rsps := by
  have hget : flow.rsps[k]? = some self'.rsp := by
    rw [Flow.rsps, List.getElem?_map, hself, hrsp]
    rfl
  obtain ⟨hk, hget⟩ := List.getElem?_eq_some_iff.1 hget
  show (flow.subscribers.set k self').map Subscriber.rsp = flow.rsps
  rw [List.map_set, ← hget]
  exact List.set_getElem_self hk

/-- A call that appends a task. -/
theorem Flow.Collected.addTask {stream : ChildStream} {action : A} (h : flow.Collected rsp calls)
    (hself : flow.subscribers[k]? = some self) (hrsp : self'.rsp = self.rsp)
    (hsets : ∀ stream' j, call.sets stream' j = decide (k = j ∧ stream = stream'))
    (hnew : call.newRsp = none) :
    (flow.addTask k self' stream action).Collected rsp (calls ++ [call]) := by
  have hrsps : (flow.addTask k self' stream action).rsps = flow.rsps := rsps_addTask hself hrsp
  refine ⟨h.submitted, ?_, ?_, ?_⟩
  · intro stream' j
    show (flow.taskList ++ [_]).countP _ = _
    rw [List.countP_append, List.countP_append, h.tasks, List.countP_singleton,
      List.countP_singleton, hsets]
  · intro task htask
    rw [hrsps]
    rcases List.mem_append.1 htask with hold | hlast
    · exact h.owner task hold
    · obtain rfl := List.mem_singleton.1 hlast
      show flow.rsps[k]? = some self'.rsp
      rw [Flow.rsps, List.getElem?_map, hself, hrsp]
      rfl
  · rw [hrsps, List.filterMap_append, List.filterMap_cons_none hnew, List.filterMap_nil,
      List.append_nil]
    exact h.rsps

/-- A call that makes a subscriber. -/
theorem Flow.Collected.makeSubscriber (h : flow.Collected rsp calls) :
    (flow.makeSubscriber rsp2).Collected rsp (calls ++ [.subscribe k rsp2]) := by
  have hrsps : (flow.makeSubscriber rsp2).rsps = flow.rsps ++ [rsp2] := List.map_append
  refine ⟨h.submitted, ?_, ?_, ?_⟩
  · intro stream j
    rw [List.countP_append]
    exact h.tasks stream j
  · intro task htask
    rw [hrsps]
    have howner := h.owner task htask
    rwa [List.getElem?_append_left (List.getElem?_eq_some_iff.1 howner).1]
  · rw [hrsps, List.filterMap_append, ← List.cons_append]
    exact h.rsps.append (List.Sublist.refl [rsp2])

/-- A call that throws. -/
theorem Flow.Collected.throws (h : flow.Collected rsp calls) {disabled : Bool}
    (hsets : ∀ stream k, call.sets stream k = false) :
    { flow with subscribeDisabled := disabled }.Collected rsp (calls ++ [call]) := by
  refine ⟨h.submitted, ?_, h.owner, ?_⟩
  · intro stream k
    rw [List.countP_append, List.countP_singleton, hsets]
    exact h.tasks stream k
  · rw [List.filterMap_append, ← List.cons_append]
    exact h.rsps.trans (List.sublist_append_left _ _)

theorem subscribe_ok [DecidableEq R] (h : flow.subscribe self rsp2 = .ok flow') :
    flow' = flow.makeSubscriber rsp2 := by
  simp only [Flow.subscribe] at h
  split at h
  · cases h
  · split at h
    · cases h
    · split at h
      · cases h
      · exact (Except.ok.inj h).symm

theorem start_ok (h : flow.start self = (.ok count, flow')) :
    count = flow.taskList.length ∧ flow'.subscribers = flow.subscribers ∧
      flow'.submitted = flow.submitted ++ flow.taskList := by
  simp only [Flow.start] at h
  split at h
  · cases h
  · cases h
    exact ⟨rfl, rfl, rfl⟩

theorem start_error {message : List Char} (h : flow.start self = (.error message, flow')) :
    flow' = { flow with subscribeDisabled := true } := by
  simp only [Flow.start] at h
  split at h
  · cases h
    rfl
  · cases h

/-- **What every call keeps** until a start returns. -/
theorem collected_step [DecidableEq R] {r r' : FlowRun R A}
    (h : r.completions = [] → r.flow.Collected rsp calls) (hstep : r.step call = some r')
    (hfirst : r'.completions = []) : r'.flow.Collected rsp (calls ++ [call]) := by
  obtain ⟨self, hself, rfl⟩ := Option.map_eq_some_iff.1 hstep
  cases call with
  | onError k onErrorAction =>
    refine (h hfirst).addTask hself rfl ?_ rfl
    intro stream j
    rfl
  | onNext k onNextAction =>
    refine (h hfirst).addTask hself rfl ?_ rfl
    intro stream j
    rfl
  | subscribe k rsp2 =>
    simp only [FlowRun.call] at hfirst ⊢
    split at hfirst
    · next message hthrows =>
      exact (h hfirst).throws (fun _ _ => rfl)
    · next flow' hok =>
      rw [subscribe_ok hok]
      exact (h hfirst).makeSubscriber
  | start k =>
    simp only [FlowRun.call] at hfirst ⊢
    split at hfirst
    · next message flow' hthrows =>
      rw [start_error hthrows]
      exact (h hfirst).throws (fun _ _ => rfl)
    · simp at hfirst

/-! ## Starting a flow -/

/-- A subscriber is known by its child, when no child was subscribed twice. -/
theorem Flow.Collected.rsp_eq_iff (h : flow.Collected rsp calls)
    (hnodup : (rsp :: calls.filterMap FlowCall.newRsp).Nodup) {task : CallableTask R A}
    (htask : task ∈ flow.taskList) (hself : flow.subscribers[k]? = some self) :
    task.rsp = self.rsp ↔ task.subscription = k := by
  have howner := h.owner task htask
  have hk : flow.rsps[k]? = some self.rsp := by
    rw [Flow.rsps, List.getElem?_map, hself]
    rfl
  refine ⟨?_, ?_⟩
  · intro hrsp
    have hlt := (List.getElem?_eq_some_iff.1 howner).1
    exact (List.getElem?_inj hlt (h.rsps.nodup hnodup)).1 (by rw [howner, hk, hrsp])
  · rintro rfl
    exact Option.some.inj (howner.symm.trans hk)

theorem Flow.Collected.subscription_lt (h : flow.Collected rsp calls) {task : CallableTask R A}
    (htask : task ∈ flow.taskList) : task.subscription < flow.subscribers.length := by
  have hlt := (List.getElem?_eq_some_iff.1 (h.owner task htask)).1
  rwa [Flow.rsps, List.length_map] at hlt

/-- The tasks of a child for a stream are the calls on its subscriber. -/
theorem Flow.Collected.countP_rsp [DecidableEq R] (h : flow.Collected rsp calls)
    (hnodup : (rsp :: calls.filterMap FlowCall.newRsp).Nodup)
    (hself : flow.subscribers[k]? = some self) (stream : ChildStream) :
    flow.taskList.countP (fun task => task.rsp = self.rsp ∧ task.stream = stream) =
      calls.countP (FlowCall.sets stream k) := by
  rw [← h.tasks]
  apply List.countP_congr
  intro task htask
  rw [decide_eq_true_iff, decide_eq_true_iff, h.rsp_eq_iff hnodup htask hself]

/-- The subscriber and the stream of each task. -/
def Flow.taskKeys (flow : Flow R A) : List (ℕ × ChildStream) :=
  flow.taskList.map fun task => (task.subscription, task.stream)

theorem Flow.Collected.count_taskKeys (h : flow.Collected rsp calls) (k : ℕ)
    (stream : ChildStream) :
    flow.taskKeys.count (k, stream) = calls.countP (FlowCall.sets stream k) := by
  rw [← h.tasks, Flow.taskKeys, List.count, List.countP_map]
  apply List.countP_congr
  intro task htask
  simp

theorem Flow.Collected.lt_of_mem_taskKeys (h : flow.Collected rsp calls) {stream : ChildStream}
    (hmem : (k, stream) ∈ flow.taskKeys) : k < flow.subscribers.length := by
  obtain ⟨task, htask, heq⟩ := List.mem_map.1 hmem
  cases heq
  exact h.subscription_lt htask

/-- With one call for each subscriber and stream, the tasks are as many as these. -/
theorem Flow.Collected.length_taskList (h : flow.Collected rsp calls)
    (hset : CallbacksSetOnce calls flow.subscribers.length) :
    flow.taskList.length = 2 * flow.subscribers.length := by
  let streams := [ChildStream.errStream, ChildStream.inStream]
  have hstreams : ∀ stream, stream ∈ streams := by
    intro stream
    cases stream
    · exact List.mem_cons_self
    · exact List.mem_cons_of_mem _ List.mem_cons_self
  have hnodup : (List.range flow.subscribers.length ×ˢ streams).Nodup :=
    List.nodup_range.product (by decide)
  have hperm : flow.taskKeys.Perm (List.range flow.subscribers.length ×ˢ streams) := by
    rw [List.perm_iff_count]
    rintro ⟨k, stream⟩
    by_cases hk : k < flow.subscribers.length
    · rw [h.count_taskKeys, hset k hk, List.count_eq_one_of_mem hnodup]
      exact List.pair_mem_product.2 ⟨List.mem_range.2 hk, hstreams stream⟩
    · have hpair : (k, stream) ∉ List.range flow.subscribers.length ×ˢ streams := by
        intro hmem
        exact hk (List.mem_range.1 (List.pair_mem_product.1 hmem).1)
      rw [List.count_eq_zero.2 hpair, List.count_eq_zero]
      exact fun hmem => hk (h.lt_of_mem_taskKeys hmem)
  have hlength := hperm.length_eq
  rw [Flow.taskKeys, List.length_map, List.length_product, List.length_range] at hlength
  rw [hlength, Nat.mul_comm]
  rfl

variable [DecidableEq R] {before after : FlowRun R A}

/-- What the first start that returns does. -/
theorem first_start (hcollected : before.flow.Collected rsp calls)
    (hfirst : before.completions = []) (hstart : before.step (.start k) = some after)
    (hreturns : after.completions = [count]) :
    count = before.flow.taskList.length ∧ after.flow.subscribers = before.flow.subscribers ∧
      after.flow.submitted = before.flow.taskList := by
  obtain ⟨self, -, rfl⟩ := Option.map_eq_some_iff.1 hstart
  simp only [FlowRun.call] at hreturns ⊢
  split at hreturns
  · simp [hfirst] at hreturns
  · next count' flow' hok =>
    obtain ⟨hcount, hsubscribers, hsubmitted⟩ := start_ok hok
    rw [hcollected.submitted, List.nil_append] at hsubmitted
    simp only [hfirst, List.nil_append, List.cons.injEq, and_true] at hreturns
    exact ⟨hreturns ▸ hcount, hsubscribers, hsubmitted⟩

/-- **The first start that returns** leaves a complete flow exactly when each subscriber was given
its two callbacks once. -/
theorem started_flow_complete_iff
    (hrun : run FlowRun.step (FlowRun.make rsp) calls = some before)
    (hnodup : (rsp :: calls.filterMap FlowCall.newRsp).Nodup)
    (hfirst : before.completions = []) (hstart : before.step (.start k) = some after)
    (hreturns : after.completions = [count]) :
    after.flow.Complete count ↔ CallbacksSetOnce calls after.flow.subscribers.length := by
  have hcollected : before.flow.Collected rsp calls :=
    run_history (I := fun calls r => r.completions = [] → r.flow.Collected rsp calls)
      (fun _ _ _ _ h hstep hfirst => collected_step h hstep hfirst)
      (fun _ => collected_make rsp) hrun hfirst
  obtain ⟨hcount, hsubscribers, hsubmitted⟩ := first_start hcollected hfirst hstart hreturns
  refine ⟨?_, ?_⟩
  · intro hcomplete j hj stream
    obtain ⟨sub, hself⟩ : ∃ sub, before.flow.subscribers[j]? = some sub :=
      ⟨_, List.getElem?_eq_getElem (hsubscribers ▸ hj)⟩
    have hone := hcomplete.one sub (hsubscribers ▸ List.mem_of_getElem? hself) stream
    rwa [hsubmitted, hcollected.countP_rsp hnodup hself] at hone
  · intro hset
    rw [hsubscribers] at hset
    refine ⟨?_, by rw [hsubmitted, hcount], ?_⟩
    · intro sub hsub stream
      obtain ⟨j, hj, hget⟩ := List.getElem_of_mem (hsubscribers ▸ hsub)
      have hself : before.flow.subscribers[j]? = some sub :=
        List.getElem?_eq_some_iff.2 ⟨hj, hget⟩
      rw [hsubmitted, hcollected.countP_rsp hnodup hself, hset j hj]
    · rw [hsubscribers, hcount, hcollected.length_taskList hset]

/-- Two children, and the callbacks of both of them. -/
def bothSubscribed : List (FlowCall ℕ ℕ) :=
  [.onError 0 10, .onNext 0 11, .subscribe 0 2, .onNext 1 12, .onError 1 13]

theorem callbacksSetOnce_both : CallbacksSetOnce bothSubscribed 2 := by
  intro k hk stream
  have hk' : k = 0 ∨ k = 1 := by omega
  rcases hk' with rfl | rfl <;> cases stream <;> rfl

theorem started_flow_complete_both :
    ∃ before after : FlowRun ℕ ℕ, run FlowRun.step (FlowRun.make 1) bothSubscribed = some before ∧
      before.step (.start 0) = some after ∧ after.completions = [4] ∧ after.flow.Complete 4 := by
  refine ⟨_, _, rfl, rfl, rfl, ?_⟩
  exact (@started_flow_complete_iff ℕ ℕ 1 bothSubscribed 0 4 _ _ _ rfl (by decide) rfl rfl
    rfl).2 callbacksSetOnce_both

/-- Starting on the first subscriber passes over the second one, which has no callbacks. -/
theorem started_flow_incomplete :
    ∃ before after : FlowRun ℕ ℕ,
      run FlowRun.step (FlowRun.make 1) [.onError 0 10, .onNext 0 11, .subscribe 0 2] =
        some before ∧
      before.completions = [] ∧ before.step (.start 0) = some after ∧
      after.completions = [2] ∧ ¬ after.flow.Complete 2 := by
  refine ⟨_, _, rfl, rfl, rfl, rfl, ?_⟩
  intro h
  exact absurd h.twice (by decide)

end Spartan
