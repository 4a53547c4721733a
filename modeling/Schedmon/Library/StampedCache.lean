import Schedmon.Library.Transition

/-!
# A cache that a stamp validates

A reader keeps the value of a source and the stamp that the source had.  To refresh
it, the reader looks at the stamp, and where that is another one, reads the source
and keeps the stamp that it saw first.  Writers replace or remove the source between
any two of these steps.

Where every replacement has a stamp of its own, each refresh that finds the source
ends with the value of a content that the source had during the refresh.
-/

namespace Library
namespace StampedCache

open Transition

variable {α β σ : Type}

/-- Where a refresh is. -/
inductive Phase (σ : Type) where
  | idle
  /-- The source has another stamp, and is looked for again. -/
  | stamped (stamp : σ)
  /-- The source was there, and is read. -/
  | present (stamp : σ)
  /-- The value is as it stays, and whether the source was found first. -/
  | done (found : Bool)
  deriving DecidableEq

/-- The source, the cache, and what happened since the refresh began. -/
structure State (α β σ : Type) where
  source : Option (α × σ)
  value : β
  stamp : σ
  phase : Phase σ
  /-- The value before the refresh. -/
  before : β
  /-- The contents of the source during the refresh, the first one first. -/
  during : List (Option α)

/-- What a writer or the reader does. -/
inductive Action (α σ : Type) where
  | write (content : α) (stamp : σ)
  | remove
  | stat
  | look
  | load
  | finish

namespace State

/-- The content of the source, where there is one. -/
def content (s : State α β σ) : Option α := s.source.map Prod.fst

/-- The state after a writer's action. -/
def replace (s : State α β σ) (source : Option (α × σ)) : State α β σ :=
  { s with source := source, during := s.during ++ [source.map Prod.fst] }

/-- The state in which a refresh begins. -/
def begin (s : State α β σ) (phase : Phase σ) : State α β σ :=
  { s with before := s.value, during := [s.content], phase := phase }

/-- The state in which a value is kept. -/
def keep (s : State α β σ) (value : β) (stamp : σ) : State α β σ :=
  { s with value := value, stamp := stamp, phase := .done true }

end State

/-- One action.  Reading takes the content at once, and there is a value for a
source that is gone. -/
def step [DecidableEq σ] (read : Option α → β) :
    Action α σ → State α β σ → Option (State α β σ)
  | .write content stamp, s => some (s.replace (some (content, stamp)))
  | .remove, s => some (s.replace none)
  | .stat, s =>
      match s.phase, s.source with
      | .idle, none => some (s.begin (.done false))
      | .idle, some (_, stamp) =>
          some (s.begin (if stamp = s.stamp then .done true else .stamped stamp))
      | _, _ => none
  | .look, s =>
      match s.phase, s.source with
      | .stamped stamp, none => some (s.keep (read none) stamp)
      | .stamped stamp, some _ => some { s with phase := .present stamp }
      | _, _ => none
  | .load, s =>
      match s.phase with
      | .present stamp => some (s.keep (read s.content) stamp)
      | _ => none
  | .finish, s =>
      match s.phase with
      | .done _ => some { s with phase := .idle }
      | _ => none

/-- The stamps of the writers. -/
def Action.stamp? : Action α σ → Option σ
  | .write _ stamp => some stamp
  | _ => none

/-- The stamps that a run writes. -/
def stampsOf (actions : List (Action α σ)) : List σ :=
  actions.filterMap Action.stamp?

/-- A cache between two refreshes, which the source agrees with or has another
stamp than. -/
structure Start (read : Option α → β) (s : State α β σ) : Prop where
  idle : s.phase = .idle
  agrees : ∀ content, s.source = some (content, s.stamp) → s.value = read (some content)

/-- The stamps that the source and the cache have. -/
def State.stamps (s : State α β σ) : List σ :=
  s.stamp :: (s.source.map Prod.snd).toList

/-- What holds during a refresh, given the stamps so far. -/
structure Valid (read : Option α → β) (stamps : List σ) (s : State α β σ) : Prop where
  known : s.stamp ∈ stamps
  sourceKnown : ∀ content stamp, s.source = some (content, stamp) → stamp ∈ stamps
  stampedKnown : ∀ stamp, s.phase = .stamped stamp ∨ s.phase = .present stamp →
    stamp ∈ stamps
  /-- The stamp of the cache vouches for the value. -/
  agrees : ∀ content, s.source = some (content, s.stamp) → s.value = read (some content)
  current : s.phase ≠ .idle → s.during.getLast? = some s.content
  unchanged : ∀ stamp, s.phase = .stamped stamp ∨ s.phase = .present stamp →
    s.during.head? ≠ some none
  found : s.phase = .done true →
    s.during.head? ≠ some none ∧ ∃ content ∈ s.during, s.value = read content
  missing : s.phase = .done false → s.during.head? = some none ∧ s.value = s.before

/-- Stamps that writers may give: each its own, and none that is there already. -/
structure Fresh (initial written : List σ) : Prop where
  nodup : written.Nodup
  new : ∀ stamp ∈ written, stamp ∉ initial

theorem Start.valid
    {read : Option α → β}
    {s : State α β σ}
    (start : Start read s) :
    Valid read s.stamps s where
  known := List.mem_cons_self
  sourceKnown := by
    intro content stamp source
    apply List.mem_cons_of_mem
    rw [source]
    exact List.mem_singleton_self stamp
  stampedKnown := by
    rintro stamp (phase | phase)
    · exact absurd (start.idle.symm.trans phase) nofun
    · exact absurd (start.idle.symm.trans phase) nofun
  agrees := start.agrees
  current := fun busy => absurd start.idle busy
  unchanged := by
    rintro stamp (phase | phase)
    · exact absurd (start.idle.symm.trans phase) nofun
    · exact absurd (start.idle.symm.trans phase) nofun
  found := fun phase => absurd (start.idle.symm.trans phase) nofun
  missing := fun phase => absurd (start.idle.symm.trans phase) nofun

namespace Valid

variable {read : Option α → β} {stamps : List σ} {s : State α β σ}

theorem content_mem
    (valid : Valid read stamps s)
    (busy : s.phase ≠ .idle) :
    s.content ∈ s.during :=
  List.mem_of_getLast? (valid.current busy)

/-- A writer's action keeps the first content of the refresh. -/
theorem head_replace
    (valid : Valid read stamps s)
    (busy : s.phase ≠ .idle)
    (source : Option (α × σ)) :
    (s.replace source).during.head? = s.during.head? := by
  obtain ⟨first, rest, during⟩ :=
    List.exists_cons_of_ne_nil (List.ne_nil_of_mem (valid.content_mem busy))
  unfold State.replace
  rw [during, List.cons_append, List.head?_cons, List.head?_cons]

theorem busy_of_eq
    {phase : Phase σ}
    (equal : s.phase = phase)
    (notIdle : phase ≠ .idle) :
    s.phase ≠ .idle := equal ▸ notIdle

/-- Writers give stamps of their own. -/
theorem replace
    (valid : Valid read stamps s)
    {later : List σ}
    (more : stamps ⊆ later)
    {source : Option (α × σ)}
    (own : ∀ content stamp, source = some (content, stamp) →
      stamp ∈ later ∧ stamp ∉ stamps) :
    Valid read later (s.replace source) where
  known := more valid.known
  sourceKnown := fun content stamp equal => (own content stamp equal).1
  stampedKnown := fun stamp phase => more (valid.stampedKnown stamp phase)
  agrees := fun content equal => absurd valid.known (own content _ equal).2
  current := fun _ => List.getLast?_concat
  unchanged := by
    intro stamp phase
    have busy : s.phase ≠ .idle := by
      rcases phase with phase | phase
      · exact busy_of_eq phase nofun
      · exact busy_of_eq phase nofun
    rw [valid.head_replace busy]
    exact valid.unchanged stamp phase
  found := by
    intro phase
    obtain ⟨head, content, member, value⟩ := valid.found phase
    rw [valid.head_replace (busy_of_eq phase nofun)]
    exact ⟨head, content, List.mem_append_left _ member, value⟩
  missing := by
    intro phase
    rw [valid.head_replace (busy_of_eq phase nofun)]
    exact valid.missing phase

/-- A value read now is that of a content of the refresh. -/
theorem keep
    (valid : Valid read stamps s)
    {stamp : σ}
    (phase : s.phase = .stamped stamp ∨ s.phase = .present stamp) :
    Valid read stamps (s.keep (read s.content) stamp) := by
  have busy : s.phase ≠ .idle := by
    rcases phase with phase | phase
    · exact busy_of_eq phase nofun
    · exact busy_of_eq phase nofun
  exact
    { known := valid.stampedKnown stamp phase
      sourceKnown := valid.sourceKnown
      stampedKnown := by rintro _ (phase | phase) <;> cases phase
      agrees := by
        intro content equal
        have same : s.content = some content := congrArg (Option.map Prod.fst) equal
        exact congrArg read same
      current := fun _ => valid.current busy
      unchanged := by rintro _ (phase | phase) <;> cases phase
      found := fun _ =>
        ⟨valid.unchanged stamp phase, s.content, valid.content_mem busy, rfl⟩
      missing := fun phase => nomatch phase }

/-- The stamp of the cache vouches for its value, and another one does not. -/
theorem stat
    [DecidableEq σ]
    (valid : Valid read stamps s)
    {content : α}
    {stamp : σ}
    (source : s.source = some (content, stamp)) :
    Valid read stamps
      (s.begin (if stamp = s.stamp then .done true else .stamped stamp)) := by
  have here : s.content = some content := congrArg (Option.map Prod.fst) source
  have head : (s.begin (if stamp = s.stamp then .done true else .stamped stamp)).during.head?
      ≠ some none := by
    intro none
    exact absurd (here.symm.trans (Option.some.inj none)) nofun
  refine ⟨valid.known, valid.sourceKnown, ?_, valid.agrees, fun _ => rfl, fun _ _ => head,
    ?_, ?_⟩
  · intro other phase
    unfold State.begin at phase
    dsimp only at phase
    split at phase
    · rcases phase with phase | phase <;> cases phase
    · rcases phase with phase | phase
      · cases phase
        exact valid.sourceKnown content _ source
      · cases phase
  · intro phase
    unfold State.begin at phase
    dsimp only at phase
    split at phase
    · next same =>
        refine ⟨head, s.content, List.mem_singleton_self _, ?_⟩
        rw [here]
        exact valid.agrees content (same ▸ source)
    · cases phase
  · intro phase
    unfold State.begin at phase
    dsimp only at phase
    split at phase
    · cases phase
    · cases phase

theorem statMissing
    (valid : Valid read stamps s)
    (source : s.source = none) :
    Valid read stamps (s.begin (.done false)) where
  known := valid.known
  sourceKnown := valid.sourceKnown
  stampedKnown := by rintro _ (phase | phase) <;> cases phase
  agrees := valid.agrees
  current := fun _ => rfl
  unchanged := by rintro _ (phase | phase) <;> cases phase
  found := fun phase => nomatch phase
  missing := by
    intro _
    have none : s.content = none := congrArg (Option.map Prod.fst) source
    exact ⟨congrArg some none, rfl⟩

theorem finish (valid : Valid read stamps s) :
    Valid read stamps { s with phase := .idle } where
  known := valid.known
  sourceKnown := valid.sourceKnown
  stampedKnown := by rintro _ (phase | phase) <;> cases phase
  agrees := valid.agrees
  current := fun busy => absurd rfl busy
  unchanged := by rintro _ (phase | phase) <;> cases phase
  found := fun phase => nomatch phase
  missing := fun phase => nomatch phase

/-- Every action keeps the invariant, as long as writers give stamps of their own. -/
theorem step
    [DecidableEq σ]
    (valid : Valid read stamps s)
    {action : Action α σ}
    {next : State α β σ}
    (own : ∀ stamp ∈ action.stamp?, stamp ∉ stamps)
    (taken : step read action s = some next) :
    Valid read (stamps ++ action.stamp?.toList) next := by
  cases action with
  | write content stamp =>
      cases taken
      apply valid.replace (List.subset_append_left _ _)
      intro content stamp equal
      cases equal
      exact ⟨List.mem_append_right _ (List.mem_singleton_self _), own _ rfl⟩
  | remove =>
      cases taken
      exact valid.replace (List.subset_append_left _ _) nofun
  | stat =>
      rw [show stamps ++ (Action.stat : Action α σ).stamp?.toList = stamps from
        List.append_nil stamps]
      unfold StampedCache.step at taken
      dsimp only at taken
      split at taken
      · next idle missing =>
          cases taken
          exact valid.statMissing missing
      · next idle present =>
          cases taken
          exact valid.stat present
      · cases taken
  | look =>
      rw [show stamps ++ (Action.look : Action α σ).stamp?.toList = stamps from
        List.append_nil stamps]
      unfold StampedCache.step at taken
      dsimp only at taken
      split at taken
      · next phase missing =>
          cases taken
          have none : s.content = none := congrArg (Option.map Prod.fst) missing
          rw [← none]
          exact valid.keep (.inl phase)
      · next phase present =>
          cases taken
          have busy := busy_of_eq phase nofun
          exact
            { valid with
              stampedKnown := by
                rintro _ (phase' | phase') <;> cases phase'
                exact valid.stampedKnown _ (.inl phase)
              current := fun _ => valid.current busy
              unchanged := fun _ _ => valid.unchanged _ (.inl phase)
              found := fun phase => nomatch phase
              missing := fun phase => nomatch phase }
      · cases taken
  | load =>
      rw [show stamps ++ (Action.load : Action α σ).stamp?.toList = stamps from
        List.append_nil stamps]
      unfold StampedCache.step at taken
      dsimp only at taken
      split at taken
      · next phase =>
          cases taken
          exact valid.keep (.inr phase)
      · cases taken
  | finish =>
      rw [show stamps ++ (Action.finish : Action α σ).stamp?.toList = stamps from
        List.append_nil stamps]
      unfold StampedCache.step at taken
      dsimp only at taken
      split at taken
      · cases taken
        exact valid.finish
      · cases taken

end Valid

/-- The invariant after a run whose writers give stamps of their own. -/
theorem valid_of_run
    [DecidableEq σ]
    {read : Option α → β}
    {initial s : State α β σ}
    (start : Start read initial)
    {actions : List (Action α σ)}
    (fresh : Fresh initial.stamps (stampsOf actions))
    (run : runActions (step read) actions initial = some s) :
    Valid read (initial.stamps ++ stampsOf actions) s := by
  refine runActions_history (fun earlier state =>
    Fresh initial.stamps (stampsOf earlier) →
      Valid read (initial.stamps ++ stampsOf earlier) state) ?_ ?_ run fresh
  · intro earlier action state next property taken fresh
    have split : stampsOf (earlier ++ [action]) =
        stampsOf earlier ++ action.stamp?.toList := by
      unfold stampsOf
      rw [List.filterMap_append]
      cases action <;> rfl
    rw [split] at fresh ⊢
    have nodup := List.nodup_append.mp fresh.nodup
    rw [← List.append_assoc]
    apply (property ⟨nodup.1, fun stamp member =>
      fresh.new stamp (List.mem_append_left _ member)⟩).step _ taken
    intro stamp given member
    have last : stamp ∈ action.stamp?.toList := Option.mem_toList.mpr given
    rcases List.mem_append.mp member with old | written
    · exact fresh.new stamp (List.mem_append_right _ last) old
    · exact nodup.2.2 stamp written stamp last rfl
  · intro _
    simpa [stampsOf] using start.valid

/-- What a finished refresh leaves: the value of a content that the source had
meanwhile, where it was there at first, and the old value otherwise. -/
theorem done_of_run
    [DecidableEq σ]
    {read : Option α → β}
    {initial s : State α β σ}
    (start : Start read initial)
    {actions : List (Action α σ)}
    (fresh : Fresh initial.stamps (stampsOf actions))
    (run : runActions (step read) actions initial = some s)
    {found : Bool}
    (done : s.phase = .done found) :
    (s.during.head? ≠ some none → ∃ content ∈ s.during, s.value = read content) ∧
    (s.during.head? = some none → s.value = s.before) ∧
    s.during.getLast? = some s.content := by
  have valid := valid_of_run start fresh run
  refine ⟨?_, ?_, valid.current (Valid.busy_of_eq done nofun)⟩
  · intro head
    cases found with
    | true => exact (valid.found done).2
    | false => exact absurd (valid.missing done).1 head
  · intro head
    cases found with
    | true => exact absurd head (valid.found done).1
    | false => exact (valid.missing done).2

/-- A second content with the stamp of the first one is not read. -/
example :
    (runActions (step (id : Option ℕ → Option ℕ))
      [.write 1 5, .stat, .look, .load, .finish, .write 2 5, .stat]
      ⟨none, none, 0, .idle, none, []⟩).map (fun s => (s.phase, s.value, s.content)) =
        some (.done true, some 1, some 2) := rfl

end StampedCache
end Library
