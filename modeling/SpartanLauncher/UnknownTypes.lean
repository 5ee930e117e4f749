import SpartanLauncher.WalkFileTree

/-!
# Entries without a type

Some file systems do not report the types of entries, and the walk then calls `stat`.

**Theorem (`types_irrelevant_iff`).** The callbacks are the same whichever types are reported, just
when the walk with all types only comes to directories and regular files. The type of a link that
is not followed, or that is dangling, and of a pipe, socket or device is not what `stat` gives.
-/

namespace Spartan

open Pruning

/-! ## Trees that differ in the types that are reported -/

mutual

/-- The same entries, where `readdir` reports the type of all or of none. -/
def Entries.flagged (isUnknown : Bool) : Entries → Entries
  | .nil => .nil
  | .cons name _ node rest =>
    .cons name isUnknown (Node.flagged isUnknown node) (Entries.flagged isUnknown rest)

def Node.flagged (isUnknown : Bool) : Node → Node
  | .dir canOpen entries => .dir canOpen (Entries.flagged isUnknown entries)
  | .lnk target => .lnk (Node.flagged isUnknown target)
  | .reg => .reg
  | .special kind => .special kind
  | .dangling => .dangling

end

/-- All entries are reported with their types. -/
abbrev Entries.trueTypes (es : Entries) : Entries := es.flagged false

def StartDir.withEntries (start : StartDir) (es : Entries) : StartDir :=
  { start with entries := es }

/-- The callbacks of a walk, without their answers. -/
def calledEvents (outcome : Except WalkError Bool × Trace) : List Event :=
  (callbacks outcome).map Prod.fst

/-- For every two ways to report the types in one tree, the walk makes the same callbacks. -/
def FindFiles.TypesIrrelevant (ff : FindFiles) (visitor : Visitor) (start : StartDir) : Prop :=
  ∀ es₁ es₂ : Entries, es₁.trueTypes = start.entries.trueTypes →
    es₂.trueTypes = start.entries.trueTypes →
    calledEvents (ff.walkFileTree visitor (start.withEntries es₁)) =
      calledEvents (ff.walkFileTree visitor (start.withEntries es₂))

def DType.isPlain (dType : DType) : Prop := dType = .dir ∨ dType = .reg

/-- The listing with true types, as far as the answers leave it over, only has directories and
regular files. -/
def FindFiles.OnlyPlain (ff : FindFiles) (visitor : Visitor) (start : StartDir) : Prop :=
  ∀ c ∈ prunedCalls (ff.pruned visitor.rule (start.withEntries start.entries.trueTypes)),
    c.1.dType.isPlain

mutual

theorem flagged_flagged (u v : Bool) : ∀ es : Entries, (es.flagged u).flagged v = es.flagged v
  | .nil => rfl
  | .cons name isUnknown node rest => by
    simp only [Entries.flagged, node_flagged_flagged u v node, flagged_flagged u v rest]

theorem node_flagged_flagged (u v : Bool) :
    ∀ node : Node, (node.flagged u).flagged v = node.flagged v
  | .dir canOpen entries => by simp only [Node.flagged, flagged_flagged u v entries]
  | .lnk target => by simp only [Node.flagged, node_flagged_flagged u v target]
  | .reg => rfl
  | .special _ => rfl
  | .dangling => rfl

end

/-! ## The types in a listing -/

namespace FindFiles

variable {ff : FindFiles}

/-- A type that can be reported in a tree of which all entries have a type, or none. -/
def FromReaddir (isUnknown : Bool) (dType : DType) : Prop :=
  dType.isPlain ∨ ∃ node : Node, dType = node.reported isUnknown

mutual

theorem dType_of_mem_listing (u : Bool) : ∀ (es : Entries) {dir : List Char} {pos : List ℕ} {i : ℕ}
    {x : Item} {e : Event}, x ∈ ff.listing dir pos (es.flagged u) i → x.happening = .visit e →
    FromReaddir u e.dType
  | .nil, _, _, _, _, _, h, _ => by
    rw [Entries.flagged, listing] at h
    cases h
  | .cons name isUnknown node rest, dir, pos, i, x, e, h, hx => by
    rw [Entries.flagged, listing_cons, List.mem_append] at h
    rcases h with h | h
    · split_ifs at h
      · cases h
      · rw [List.mem_singleton.1 h] at hx
        cases hx
      · unfold entryItems at h
        split_ifs at h
        · exact dType_of_mem_nodeItems u node (.inr ⟨_, rfl⟩) h hx
        · rw [List.mem_singleton.1 h] at hx
          cases hx
          exact .inr ⟨_, rfl⟩
    · exact dType_of_mem_listing u rest h hx

theorem dType_of_mem_nodeItems (u : Bool) : ∀ (node : Node) {pos : List ℕ}
    {path filename : List Char} {dType : DType} {x : Item} {e : Event}, FromReaddir u dType →
    x ∈ ff.nodeItems pos path filename dType (node.flagged u) → x.happening = .visit e →
    FromReaddir u e.dType
  | .dir canOpen entries, pos, path, filename, dType, x, e, hd, h, hx => by
    rw [Node.flagged, nodeItems] at h
    split_ifs at h
    · rcases mem_dirItems_iff.1 h with rfl | h | rfl
      · cases hx
        exact .inl (.inl rfl)
      · rcases mem_openItems h with h | rfl
        · exact dType_of_mem_listing u entries h hx
        · cases hx
      · cases hx
        exact .inl (.inl rfl)
    · cases h
  | .lnk target, pos, path, filename, dType, x, e, hd, h, hx => by
    rw [Node.flagged, nodeItems] at h
    exact dType_of_mem_nodeItems u target hd h hx
  | .dangling, pos, path, filename, dType, x, e, hd, h, hx => by
    rw [Node.flagged, nodeItems] at h
    rw [List.mem_singleton.1 h] at hx
    cases hx
    exact hd
  | .reg, pos, path, filename, dType, x, e, hd, h, hx => by
    rw [Node.flagged, nodeItems] at h
    rw [List.mem_singleton.1 h] at hx
    cases hx
    exact .inl (.inr rfl)
  | .special kind, pos, path, filename, dType, x, e, hd, h, hx => by
    rw [Node.flagged, nodeItems] at h
    cases h

end

end FindFiles

/-! ## The trace only grows -/

variable {α β : Type}

def Grows (m : WalkM α) : Prop := ∀ t, t <+: (m.runOn t).2

theorem grows_pure (a : α) : Grows (pure a) := fun _ => List.prefix_rfl

theorem grows_throw (err : WalkError) : Grows (throw err : WalkM α) := fun _ => List.prefix_rfl

theorem Grows.bind {m : WalkM α} {f : α → WalkM β} (hm : Grows m) (hf : ∀ a, Grows (f a)) :
    Grows (m >>= f) := by
  intro t
  rw [runOn_bind]
  have ht := hm t
  rcases hr : m.runOn t with ⟨err | a, t'⟩
  · rw [hr] at ht
    exact ht
  · rw [hr] at ht
    exact ht.trans (hf a t')

theorem grows_callback (visitor : Visitor) (e : Event) : Grows (visitor.callback e) := by
  intro t
  rw [runOn_callback]
  cases visitor t e with
  | none => exact List.prefix_rfl
  | some vr => exact List.prefix_append t _

namespace FindFiles

variable {ff : FindFiles} {visitor : Visitor}

theorem grows_report (skipSibs : ℕ) (e : Event) : Grows (report visitor skipSibs e) := by
  refine (grows_callback visitor e).bind fun vr => ?_
  cases vr <;> exact grows_pure _

theorem grows_openDir {dir : List Char} {canOpen : Bool} : Grows (openDir dir canOpen) := by
  cases canOpen
  · exact grows_throw _
  · exact grows_pure _

theorem grows_visitDir {depth skipSibs : ℕ} {path filename : List Char} {walk : WalkM Bool}
    (hwalk : Grows walk) : Grows (visitDir visitor depth skipSibs path filename walk) := by
  refine (grows_callback visitor _).bind fun vr => ?_
  cases vr with
  | «continue» =>
    refine hwalk.bind fun stop => (grows_callback visitor _).bind fun vr => ?_
    cases vr <;> exact grows_pure _
  | terminate => exact grows_pure _
  | skipSubtree => exact grows_pure _
  | skipSiblings => exact grows_pure _

mutual

theorem grows_walkEntries : ∀ (es : Entries) {depth : ℕ} {dir : List Char} {skipSibs : ℕ}
    {stop : Bool}, Grows (walkEntries ff visitor depth dir es skipSibs stop)
  | .nil, _, _, _, _ => grows_pure _
  | .cons name isUnknown node rest, depth, dir, skipSibs, stop => by
    rw [walkEntries_cons]
    split_ifs
    · exact grows_pure _
    · exact grows_walkEntries rest
    · exact grows_throw _
    · refine Grows.bind ?_ fun r => grows_walkEntries rest
      unfold visitEntry
      split_ifs
      · exact grows_visitStat node
      · exact grows_report _ _

theorem grows_visitStat : ∀ (node : Node) {depth skipSibs : ℕ} {path filename : List Char}
    {dType : DType}, Grows (visitStat ff visitor depth skipSibs path filename dType node)
  | .dir canOpen entries, depth, skipSibs, path, filename, dType => by
    rw [visitStat]
    split_ifs
    · exact grows_visitDir (grows_openDir.bind fun _ => grows_walkEntries entries)
    · exact grows_pure _
  | .lnk target, depth, skipSibs, path, filename, dType => by
    rw [visitStat]
    exact grows_visitStat target
  | .dangling, depth, skipSibs, path, filename, dType => grows_report _ _
  | .reg, depth, skipSibs, path, filename, dType => grows_report _ _
  | .special _, depth, skipSibs, path, filename, dType => grows_pure _

end

end FindFiles

/-! ## Walks that agree where only plain types are reported -/

def PlainOutcome (outcome : Except WalkError α × Trace) : Prop :=
  (∀ c ∈ outcome.2, c.1.dType.isPlain) ∧
    ∀ e, outcome.1 = .error (.thrown e) → e.dType.isPlain

/-- `m` does what `m'` does, unless `m'` reports something that is neither a directory nor a
regular file. -/
def AgreesIfPlain (m m' : WalkM α) : Prop :=
  ∀ t, PlainOutcome (m'.runOn t) → m.runOn t = m'.runOn t

theorem AgreesIfPlain.rfl {m : WalkM α} : AgreesIfPlain m m := fun _ _ => Eq.refl _

theorem AgreesIfPlain.bind {m m' : WalkM α} {f f' : α → WalkM β} (hm : AgreesIfPlain m m')
    (hf : ∀ a, AgreesIfPlain (f a) (f' a)) (hgrows : ∀ a, Grows (f' a)) :
    AgreesIfPlain (m >>= f) (m' >>= f') := by
  intro t hplain
  rw [runOn_bind] at hplain ⊢
  rw [runOn_bind]
  rcases hr : m'.runOn t with ⟨err | a, t'⟩
  · rw [hr] at hplain
    have hplain' : PlainOutcome (m'.runOn t) := by
      rw [hr]
      refine ⟨hplain.1, ?_⟩
      rintro e ⟨rfl⟩
      exact hplain.2 e (Eq.refl _)
    rw [hm t hplain', hr]
  · rw [hr] at hplain
    have hplain' : PlainOutcome (m'.runOn t) := by
      rw [hr]
      refine ⟨fun c hc => hplain.1 c ((hgrows a t').subset hc), ?_⟩
      intro e he
      cases he
    rw [hm t hplain', hr]
    exact hf a t' hplain

namespace FindFiles

variable {ff : FindFiles} {visitor : Visitor} {depth skipSibs : ℕ} {path filename : List Char}

/-- A callback for an entry of another type is noticed. -/
theorem not_plain_report {dType : DType} {kind : VisitKind} (hd : ¬dType.isPlain) (t : Trace) :
    ¬PlainOutcome
      (WalkM.runOn (report visitor skipSibs ⟨path, filename, depth, dType, kind⟩) t) := by
  intro h
  rw [runOn_report] at h
  cases ha : visitor t ⟨path, filename, depth, dType, kind⟩ with
  | none =>
    rw [ha] at h
    exact hd (h.2 _ rfl)
  | some vr =>
    rw [ha] at h
    exact hd (h.1 (⟨path, filename, depth, dType, kind⟩, vr) (by simp))

theorem agrees_visitDir {walk walk' : WalkM Bool} (hwalk : AgreesIfPlain walk walk')
    (hgrows : Grows walk') :
    AgreesIfPlain (visitDir visitor depth skipSibs path filename walk)
      (visitDir visitor depth skipSibs path filename walk') := by
  refine AgreesIfPlain.rfl.bind (fun vr => ?_) fun vr => ?_
  · cases vr with
    | «continue» =>
      refine hwalk.bind (fun stop => .rfl) fun stop => (grows_callback visitor _).bind fun vr => ?_
      cases vr <;> exact grows_pure _
    | terminate => exact .rfl
    | skipSubtree => exact .rfl
    | skipSiblings => exact .rfl
  · cases vr with
    | «continue» =>
      refine hgrows.bind fun stop => (grows_callback visitor _).bind fun vr => ?_
      cases vr <;> exact grows_pure _
    | terminate => exact grows_pure _
    | skipSubtree => exact grows_pure _
    | skipSiblings => exact grows_pure _

theorem dType_flagged (u : Bool) (node : Node) : (node.flagged u).dType = node.dType := by
  cases node <;> rfl

theorem resolves_of_isPlain {dType : DType} (hd : dType.isPlain) : ff.resolves dType = true := by
  rcases hd with rfl | rfl <;> rfl

theorem agrees_report_of_not_plain {dType : DType} {kind : VisitKind} {m : WalkM (Bool × ℕ)}
    (hd : ¬dType.isPlain) :
    AgreesIfPlain m (report visitor skipSibs ⟨path, filename, depth, dType, kind⟩) :=
  fun t hplain => absurd hplain (not_plain_report hd t)

mutual

theorem agrees_walkEntries : ∀ (es : Entries) {depth : ℕ} {dir : List Char} {skipSibs : ℕ}
    {stop : Bool}, AgreesIfPlain (walkEntries ff visitor depth dir es skipSibs stop)
      (walkEntries ff visitor depth dir es.trueTypes skipSibs stop)
  | .nil, _, _, _, _ => .rfl
  | .cons name isUnknown node rest, depth, dir, skipSibs, stop => by
    rw [Entries.trueTypes, Entries.flagged, walkEntries_cons, walkEntries_cons]
    split_ifs
    · exact .rfl
    · exact agrees_walkEntries rest
    · exact .rfl
    · refine AgreesIfPlain.bind ?_ (fun r => agrees_walkEntries rest) fun r => grows_walkEntries _
      have hreported : (node.flagged false).reported false = node.dType := dType_flagged false node
      rw [visitEntry, visitEntry, hreported]
      by_cases hres : ff.resolves node.dType = true
      · have hres' : ff.resolves (node.reported isUnknown) = true := by
          cases isUnknown
          · exact hres
          · rfl
        rw [if_pos hres', if_pos hres]
        apply agrees_visitStat node
        by_cases hd : node.dType.isPlain
        · exact .inr (.inl hd)
        · exact .inr (.inr hd)
      · rw [if_neg hres]
        exact agrees_report_of_not_plain fun hd => hres (resolves_of_isPlain hd)

/-- The type that was reported only shows where `stat` fails. -/
theorem agrees_visitStat : ∀ (node : Node) {depth skipSibs : ℕ} {path filename : List Char}
    {d₁ d₂ : DType}, d₁ = d₂ ∨ node.dType.isPlain ∨ ¬d₂.isPlain →
    AgreesIfPlain (visitStat ff visitor depth skipSibs path filename d₁ node)
      (visitStat ff visitor depth skipSibs path filename d₂ (node.flagged false))
  | .dir canOpen entries, depth, skipSibs, path, filename, d₁, d₂, _ => by
    rw [Node.flagged, visitStat, visitStat]
    split_ifs
    · exact agrees_visitDir (AgreesIfPlain.rfl.bind (fun _ => agrees_walkEntries entries)
        fun _ => grows_walkEntries _) (grows_openDir.bind fun _ => grows_walkEntries _)
    · exact .rfl
  | .lnk target, depth, skipSibs, path, filename, d₁, d₂, hd => by
    rw [Node.flagged, visitStat, visitStat]
    apply agrees_visitStat target
    rcases hd with rfl | (h | h) | hd
    · exact .inl rfl
    · cases h
    · cases h
    · exact .inr (.inr hd)
  | .dangling, depth, skipSibs, path, filename, d₁, d₂, hd => by
    rw [Node.flagged, visitStat, visitStat]
    rcases hd with rfl | (h | h) | hd
    · exact .rfl
    · cases h
    · cases h
    · exact agrees_report_of_not_plain hd
  | .reg, depth, skipSibs, path, filename, d₁, d₂, _ => .rfl
  | .special _, depth, skipSibs, path, filename, d₁, d₂, _ => .rfl

end

/-! ## The sequence of callbacks -/

variable {start : StartDir}

/-- A way to report the types makes no difference if the walk with all types is plain. -/
theorem walkFileTree_eq_of_plain {es : Entries}
    (hplain : PlainOutcome (ff.walkFileTree visitor (start.withEntries es.trueTypes))) :
    ff.walkFileTree visitor (start.withEntries es) =
      ff.walkFileTree visitor (start.withEntries es.trueTypes) := by
  refine AgreesIfPlain.bind .rfl (fun _ => ?_) (fun _ => ?_) [] hplain
  · exact AgreesIfPlain.rfl.bind (fun _ => agrees_walkEntries es) fun _ => grows_walkEntries _
  · exact grows_openDir.bind fun _ => grows_walkEntries _

theorem plainOutcome_iff {outcome : Except WalkError Bool × Trace} :
    PlainOutcome outcome ↔ ∀ e ∈ calledEvents outcome, e.dType.isPlain := by
  rcases outcome with ⟨(ex | e) | stop, t⟩ <;>
    simp [PlainOutcome, calledEvents, callbacks, or_imp, forall_and]

theorem onlyPlain_iff :
    ff.OnlyPlain visitor start ↔
      PlainOutcome (ff.walkFileTree visitor (start.withEntries start.entries.trueTypes)) := by
  rw [plainOutcome_iff, walkFileTree_eq, calledEvents, callbacks_outcome, List.forall_mem_map]
  rfl

theorem fromReaddir_of_called {u : Bool} {es : Entries} {e : Event}
    (he : e ∈ calledEvents (ff.walkFileTree visitor (start.withEntries (es.flagged u)))) :
    FromReaddir u e.dType := by
  obtain ⟨c, hc, rfl⟩ := List.mem_map.1 he
  rw [walkFileTree_eq, callbacks_outcome] at hc
  obtain ⟨x, hx, hvisit⟩ := exists_of_mem_prunedCalls hc
  rcases List.mem_cons.1 hx with rfl | hx
  · rw [← Happening.visit.inj hvisit]
    exact .inl (.inl rfl)
  · rcases mem_openItems hx with hx | rfl
    · exact dType_of_mem_listing u es hx hvisit
    · cases hvisit

/-- **The types that are reported make no difference** just when the walk with all of them comes
to nothing but directories and regular files. -/
theorem types_irrelevant_iff :
    ff.TypesIrrelevant visitor start ↔ ff.OnlyPlain visitor start := by
  refine ⟨?_, ?_⟩
  · intro h
    rw [onlyPlain_iff, plainOutcome_iff]
    intro e htrue
    have hunknown := htrue
    rw [h _ (start.entries.flagged true) (flagged_flagged _ _ _) (flagged_flagged _ _ _)]
      at hunknown
    rcases fromReaddir_of_called htrue with hplain | ⟨node, hnode⟩
    · exact hplain
    · rcases fromReaddir_of_called hunknown with hplain | ⟨_, hnone⟩
      · exact hplain
      · -- an entry that is reported with its type does not have the type of one that is not
        rw [hnone] at hnode
        cases node <;> cases hnode
  · intro hplain es₁ es₂ h₁ h₂
    rw [onlyPlain_iff] at hplain
    have heq : ∀ es : Entries, es.trueTypes = start.entries.trueTypes →
        ff.walkFileTree visitor (start.withEntries es) =
          ff.walkFileTree visitor (start.withEntries start.entries.trueTypes) := by
      intro es hes
      rw [walkFileTree_eq_of_plain (by rw [hes]; exact hplain), hes]
    rw [heq es₁ h₁, heq es₂ h₂]

/-- A link to a file in the directory `/links`, of which the type is reported, or not. -/
def linkDir (isUnknown : Bool) : StartDir where
  path := "/links".toList
  canOpen := true
  entries := .cons (.of "link") isUnknown (.lnk .reg) .nil
  nonempty := by decide

/-- The link is a link where its type is reported, and a regular file where it is not. -/
theorem types_not_irrelevant :
    ¬TypesIrrelevant {} (Visitor.returning fun _ _ => .continue) (linkDir false) := by
  intro h
  have heq := h (linkDir false).entries (linkDir true).entries rfl rfl
  have hne : calledEvents (FindFiles.walkFileTree {} (Visitor.returning fun _ _ => .continue)
      ((linkDir false).withEntries (linkDir false).entries)) ≠
      calledEvents (FindFiles.walkFileTree {} (Visitor.returning fun _ _ => .continue)
      ((linkDir false).withEntries (linkDir true).entries)) := by
    decide
  exact hne heq

end FindFiles

end Spartan
