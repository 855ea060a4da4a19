import SmallBasic.Library.Basic

/-!
# When the timer fires

The timer can be set, paused, resumed, bound and polled in any order. It begins to count when it is
set or resumed, and anew with every poll that finds it due, also when nothing is bound to it. A poll
returns the handler exactly when a full interval has passed since then. So a poll that comes late
counts as one tick, and the next one is a full interval away from it. All this holds in whatever
unit instants are counted.

## Main definitions

* `Timer.Operation`, `Timer.performAll` — what can be done to a timer, and the timer after it.
* `Timer.countingSince?` — when a timer last began to count, told from what was done to it.
* `Timer.firings` — the instants at which polls return a handler.
* `Timer.Punctual` — the timer fires exactly when it is due.

## Main statements

* `Timer.Reflects.perform` — each operation does to a timer what its past says.
* `Timer.add_le_of_mem_firings` — nothing fires before an interval has passed.
* `Timer.punctual` — the timer is punctual, whatever is done to it.
-/

namespace SmallBasic

namespace Timer

/-! ## Operations -/

/-- What can be done to a timer, and when. -/
inductive Operation where
  | setInterval (value : String) (now : Nat)
  | pause
  | resume (now : Nat)
  | bind (handler : Nat)
  | poll (now : Nat)
deriving DecidableEq, Repr

namespace Operation

/-- The instant of an operation that looks at the clock. -/
def instant? : Operation → Option Nat
  | .setInterval _ now | .resume now | .poll now => some now
  | .pause | .bind _ => none

/-- Whether an operation leaves the interval as it is. -/
def keepsInterval : Operation → Bool
  | .setInterval _ _ => false
  | _ => true

end Operation

/-- The instants of operations never go back. -/
def InOrder (operations : List Operation) : Prop :=
  (operations.filterMap Operation.instant?).Pairwise (· ≤ ·)

/-- Does an operation. Only a poll may return something. -/
def perform (timer : Timer) : Operation → Option Nat × Timer
  | .setInterval value now => (none, timer.setInterval value now)
  | .pause => (none, timer.pause)
  | .resume now => (none, timer.resume now)
  | .bind handler => (none, timer.bind handler)
  | .poll now => timer.poll now

/-- The timer after operations. -/
def performAll (timer : Timer) (operations : List Operation) : Timer :=
  operations.foldl (fun timer operation => (timer.perform operation).2) timer

/-- The instant of an operation that returns a handler, and the handler. -/
def firing? (timer : Timer) (operation : Operation) : Option (Nat × Nat) :=
  operation.instant?.bind fun now => (timer.perform operation).1.map (now, ·)

/-- The firings in the course of operations, in order. -/
def firings (timer : Timer) : List Operation → List (Nat × Nat)
  | [] => []
  | operation :: rest =>
    (timer.firing? operation).toList ++ (timer.perform operation).2.firings rest

/-! ## The past of a timer

What is known of a timer from what was done to it, without looking at it. The operations are those
since it came into being, the latest one first. -/

/-- The interval that was set last. -/
def lastInterval : List Operation → Nat
  | [] => maxInterval
  | .setInterval value _ :: _ => intervalOf value
  | _ :: past => lastInterval past

/-- The handler that was bound last. -/
def lastHandler? : List Operation → Option Nat
  | [] => none
  | .bind handler :: _ => some handler
  | _ :: past => lastHandler? past

/-- The instant of the last operation that set the timer, resumed it or found it due, unless it was
paused after that. A millisecond takes `resolution` instants. -/
def countingSince? (resolution : Nat) : List Operation → Option Nat
  | [] => none
  | .setInterval _ now :: _ => some now
  | .pause :: _ => none
  | .resume now :: _ => some now
  | .bind _ :: past => countingSince? resolution past
  | .poll now :: past =>
    (countingSince? resolution past).map fun start =>
      if start + resolution * lastInterval past ≤ now then now else start

/-- A timer is as its past says: while it is running, it is due a full interval after it began to
count. -/
structure Reflects (timer : Timer) (past : List Operation) : Prop where
  interval_eq : timer.interval = lastInterval past
  handler_eq : timer.handler? = lastHandler? past
  due_eq : timer.due? = (countingSince? timer.resolution past).map (· + timer.period)

/-- A timer for which a millisecond takes `resolution` instants fires exactly when it is due, in the
course of these operations and after them. -/
structure Punctual (resolution : Nat) (operations : List Operation) : Prop where
  /-- The interval is within its limits. -/
  bounded : minInterval ≤ (performAll { resolution } operations).interval ∧
    (performAll { resolution } operations).interval ≤ maxInterval
  /-- So many instants are an interval. -/
  period_eq : (performAll { resolution } operations).period =
    resolution * (performAll { resolution } operations).interval
  /-- While the timer is running, it is due a full interval after it last began to count. -/
  reflects : (performAll { resolution } operations).Reflects operations.reverse
  /-- A poll returns the handler if one is bound and the interval has passed, and else nothing. -/
  poll_iff (now handler : Nat) :
    ((performAll { resolution } operations).poll now).1 = some handler ↔
      lastHandler? operations.reverse = some handler ∧
        ∃ start, countingSince? resolution operations.reverse = some start ∧
          start + (performAll { resolution } operations).period ≤ now
  /-- A library with this timer announces its next event for when the interval has passed. -/
  announced (lib : Library) (htimer : lib.timer = performAll { resolution } operations)
    (instant : Nat) :
    lib.nextDue? = some instant ↔ (lastHandler? operations.reverse).isSome = true ∧
      ∃ start, countingSince? resolution operations.reverse = some start ∧
        start + (performAll { resolution } operations).period = instant
  /-- Two firings are never closer than the shortest interval. -/
  apart : (firings { resolution } operations).Pairwise fun first second =>
    first.1 + resolution * minInterval ≤ second.1
  /-- They are at least the interval apart if it is not set between them. -/
  apart_of_keepsInterval {earlier stretch later : List Operation}
    (hsplit : operations = earlier ++ stretch ++ later)
    (hkeeps : ∀ operation ∈ stretch, operation.keepsInterval = true) :
    ((performAll { resolution } earlier).firings stretch).Pairwise fun first second =>
      first.1 + (performAll { resolution } earlier).period ≤ second.1
  /-- However late a poll finds the timer due, it fires once, and up to an interval later there is
  nothing to catch up with. -/
  once {earlier stretch later : List Operation} {start now handler : Nat}
    (hsplit : operations = earlier ++ .poll now :: stretch ++ later)
    (hkeeps : ∀ operation ∈ stretch, operation.keepsInterval = true)
    (hhandler : lastHandler? earlier.reverse = some handler)
    (hstart : countingSince? resolution earlier.reverse = some start)
    (hdue : start + (performAll { resolution } earlier).period ≤ now)
    (hsoon : ∀ instant ∈ stretch.filterMap Operation.instant?,
      instant < now + (performAll { resolution } earlier).period) :
    (performAll { resolution } earlier).firings (.poll now :: stretch) = [(now, handler)]

/-! ## The interval -/

variable {timer : Timer} {operation : Operation} {operations past : List Operation}
  {resolution : Nat}

/-- Every text asks for an interval within the limits. -/
theorem intervalOf_bounds (value : String) :
    minInterval ≤ intervalOf value ∧ intervalOf value ≤ maxInterval := by
  have hcount (ms : Number) : ms.toCount maxInterval ≤ maxInterval := by
    unfold Number.toCount
    split
    · exact Nat.min_le_right _ _
    · exact Nat.le_refl _
    · exact Nat.zero_le _
  unfold intervalOf
  split
  · exact ⟨Nat.le_max_left _ _, Nat.max_le.2 ⟨by decide, hcount _⟩⟩
  · exact ⟨Nat.le_refl _, by decide⟩

theorem lastInterval_bounds (past : List Operation) :
    minInterval ≤ lastInterval past ∧ lastInterval past ≤ maxInterval := by
  induction past with
  | nil => decide
  | cons operation past ih =>
    cases operation with
    | setInterval value now => exact intervalOf_bounds value
    | _ => exact ih

theorem interval_perform (hkeeps : operation.keepsInterval = true) :
    (timer.perform operation).2.interval = timer.interval := by
  cases operation with
  | setInterval => cases hkeeps
  | poll now =>
    simp only [perform, poll]
    split
    · rfl
    · split <;> rfl
  | _ => rfl

theorem resolution_perform (timer : Timer) (operation : Operation) :
    (timer.perform operation).2.resolution = timer.resolution := by
  cases operation with
  | poll now =>
    simp only [perform, poll]
    split
    · rfl
    · split <;> rfl
  | _ => rfl

theorem resolution_performAll (timer : Timer) (operations : List Operation) :
    (timer.performAll operations).resolution = timer.resolution := by
  induction operations generalizing timer with
  | nil => rfl
  | cons operation operations ih =>
    exact (ih (timer.perform operation).2).trans (resolution_perform timer operation)

/-- An operation that leaves the interval as it is leaves the number of its instants. -/
theorem period_perform (hkeeps : operation.keepsInterval = true) :
    (timer.perform operation).2.period = timer.period := by
  rw [period, period, span, span, resolution_perform, interval_perform hkeeps]

/-! ## Polls -/

/-- A poll of a timer that is due starts it anew. -/
theorem poll_of_due {due now : Nat} (hdue : timer.due? = some due) (hnow : due ≤ now) :
    timer.poll now = (timer.handler?, timer.resume now) := by
  simp [poll, hdue, Nat.not_lt.2 hnow]

/-- A poll of a timer that is not due does nothing. -/
theorem poll_of_not_due {now : Nat} (hdue : ∀ due ∈ timer.due?, now < due) :
    timer.poll now = (none, timer) := by
  unfold poll
  split
  · rfl
  · rename_i due hsome
    rw [if_pos (hdue due hsome)]

theorem due_or_not_due (timer : Timer) (now : Nat) :
    (∃ due, timer.due? = some due ∧ due ≤ now) ∨ ∀ due ∈ timer.due?, now < due := by
  cases timer.due? with
  | none => exact .inr nofun
  | some due =>
    rcases Nat.lt_or_ge now due with hlt | hge
    · exact .inr fun due' hdue' => Option.some.inj hdue' ▸ hlt
    · exact .inl ⟨due, rfl, hge⟩

theorem poll_eq_some_iff {now handler : Nat} : (timer.poll now).1 = some handler ↔
    timer.handler? = some handler ∧ ∃ due, timer.due? = some due ∧ due ≤ now := by
  rcases timer.due_or_not_due now with ⟨due, hdue, hnow⟩ | hnot
  · rw [poll_of_due hdue hnow]
    exact ⟨fun hhandler => ⟨hhandler, due, hdue, hnow⟩, And.left⟩
  · rw [poll_of_not_due hnot]
    refine iff_of_false nofun ?_
    rintro ⟨-, due, hdue, hnow⟩
    exact Nat.not_lt.2 hnow (hnot due hdue)

/-- Only a poll that is due fires. -/
theorem firing?_eq_some_iff {firing : Nat × Nat} : timer.firing? operation = some firing ↔
    operation = .poll firing.1 ∧ timer.handler? = some firing.2 ∧
      ∃ due, timer.due? = some due ∧ due ≤ firing.1 := by
  obtain ⟨now, handler⟩ := firing
  cases operation with
  | poll instant =>
    rw [← poll_eq_some_iff]
    simp only [firing?, Operation.instant?, perform, Option.bind_some, Option.map_eq_some_iff,
      Prod.mk.injEq, Operation.poll.injEq]
    constructor
    · rintro ⟨found, hfound, rfl, rfl⟩
      exact ⟨rfl, hfound⟩
    · rintro ⟨rfl, hfound⟩
      exact ⟨handler, hfound, rfl, rfl⟩
  | _ => simp [firing?, Operation.instant?, perform]

/-! ## What the past says -/

/-- Each operation does to a timer what its past says. -/
theorem Reflects.perform (hpast : timer.Reflects past) (operation : Operation) :
    (timer.perform operation).2.Reflects (operation :: past) := by
  obtain ⟨hinterval, hhandler, hdue⟩ := hpast
  cases operation with
  | setInterval value now => exact ⟨rfl, hhandler, rfl⟩
  | pause => exact ⟨hinterval, hhandler, rfl⟩
  | resume now => exact ⟨hinterval, hhandler, rfl⟩
  | bind handler => exact ⟨hinterval, rfl, hdue⟩
  | poll now =>
    simp only [Timer.perform]
    rcases timer.due_or_not_due now with ⟨due, hsome, hnow⟩ | hnot
    · rw [poll_of_due hsome hnow]
      refine ⟨hinterval, hhandler, ?_⟩
      obtain ⟨start, hstart, rfl⟩ := Option.map_eq_some_iff.1 (hdue.symm.trans hsome)
      rw [period, span, hinterval] at hnow
      show some (now + timer.period) =
        (countingSince? timer.resolution (.poll now :: past)).map (· + timer.period)
      rw [countingSince?, hstart, Option.map_some, if_pos hnow, Option.map_some]
    · rw [poll_of_not_due hnot]
      refine ⟨hinterval, hhandler, ?_⟩
      rw [hdue, countingSince?, Option.map_map]
      refine Option.map_congr fun start hstart => ?_
      have hlater := hnot (start + timer.period) (by rw [hdue, hstart]; rfl)
      rw [period, span, hinterval] at hlater
      simp only [Function.comp_apply, if_neg (Nat.not_le.2 hlater)]

theorem reflects_performAll (hpast : timer.Reflects past) (operations : List Operation) :
    (timer.performAll operations).Reflects (operations.reverse ++ past) := by
  induction operations generalizing timer past with
  | nil => exact hpast
  | cons operation operations ih =>
    rw [List.reverse_cons, List.append_assoc]
    exact ih (hpast.perform operation)

theorem reflects_after (resolution : Nat) (operations : List Operation) :
    (performAll { resolution } operations).Reflects operations.reverse := by
  have hnew : Reflects { resolution } [] := ⟨rfl, rfl, rfl⟩
  have hafter := reflects_performAll hnew operations
  rwa [List.append_nil] at hafter

theorem Reflects.bounds (hpast : timer.Reflects past) :
    minInterval ≤ timer.interval ∧ timer.interval ≤ maxInterval := by
  rw [hpast.interval_eq]
  exact lastInterval_bounds past

/-! ## Distances -/

theorem InOrder.of_sublist {part : List Operation} (horder : InOrder operations)
    (hpart : part.Sublist operations) : InOrder part :=
  List.Pairwise.sublist (hpart.filterMap _) horder

theorem instants_subset (operation : Operation) (operations : List Operation) :
    operations.filterMap Operation.instant? ⊆
      (operation :: operations).filterMap Operation.instant? :=
  ((List.sublist_cons_self operation operations).filterMap _).subset

/-- Operations after which every interval takes at least `gap` instants. -/
def AllowGap (resolution gap : Nat) (operations : List Operation) : Prop :=
  ∀ value now, .setInterval value now ∈ operations → gap ≤ resolution * intervalOf value

theorem allowGap_of_keepsInterval (resolution gap : Nat)
    (hkeeps : ∀ operation ∈ operations, operation.keepsInterval = true) :
    AllowGap resolution gap operations := by
  intro value now hmem
  cases hkeeps _ hmem

theorem AllowGap.tail {gap : Nat} (hallow : AllowGap resolution gap (operation :: operations)) :
    AllowGap resolution gap operations :=
  fun value now hmem => hallow value now (List.mem_cons_of_mem _ hmem)

theorem AllowGap.perform {gap : Nat}
    (hallow : AllowGap timer.resolution gap (operation :: operations)) :
    AllowGap (timer.perform operation).2.resolution gap operations := by
  rw [resolution_perform]
  exact hallow.tail

theorem AllowGap.le_period {gap : Nat}
    (hallow : AllowGap timer.resolution gap (operation :: operations))
    (hgap : gap ≤ timer.period) : gap ≤ (timer.perform operation).2.period := by
  cases operation with
  | setInterval value now => exact hallow value now List.mem_cons_self
  | _ => exact Nat.le_trans hgap (Nat.le_of_eq (period_perform rfl).symm)

/-- A timer that is not due before `since + gap` is not made due earlier by an operation at `since`
or later. -/
theorem le_due_of_perform {gap since : Nat}
    (hallow : AllowGap timer.resolution gap (operation :: operations))
    (hgap : gap ≤ timer.period) (hdue : ∀ due ∈ timer.due?, since + gap ≤ due)
    (hinstant : ∀ instant ∈ operation.instant?, since ≤ instant) :
    ∀ due ∈ (timer.perform operation).2.due?, since + gap ≤ due := by
  have hresume {now period : Nat} (hnow : since ≤ now) (hperiod : gap ≤ period) :
      ∀ due ∈ some (now + period), since + gap ≤ due := by
    rintro due ⟨⟩
    omega
  cases operation with
  | setInterval value now => exact hresume (hinstant now rfl) (hallow value now List.mem_cons_self)
  | pause => exact nofun
  | resume now => exact hresume (hinstant now rfl) hgap
  | bind => exact hdue
  | poll now =>
    simp only [perform]
    rcases timer.due_or_not_due now with ⟨due, hsome, hnow⟩ | hnot
    · rw [poll_of_due hsome hnow]
      exact hresume (hinstant now rfl) hgap
    · rw [poll_of_not_due hnot]
      exact hdue

/-- Nothing fires before an interval has passed. -/
theorem add_le_of_mem_firings {gap since : Nat} (hallow : AllowGap timer.resolution gap operations)
    (hgap : gap ≤ timer.period) (hdue : ∀ due ∈ timer.due?, since + gap ≤ due)
    (hinstants : ∀ instant ∈ operations.filterMap Operation.instant?, since ≤ instant) :
    ∀ firing ∈ timer.firings operations, since + gap ≤ firing.1 := by
  induction operations generalizing timer with
  | nil => exact nofun
  | cons operation operations ih =>
    have hinstant : ∀ instant ∈ operation.instant?, since ≤ instant := by
      intro instant hinstant
      exact hinstants instant (List.mem_filterMap.2 ⟨operation, List.mem_cons_self, hinstant⟩)
    have hrest : ∀ instant ∈ operations.filterMap Operation.instant?, since ≤ instant :=
      fun instant hmem => hinstants instant (instants_subset operation operations hmem)
    intro firing hfiring
    rcases List.mem_append.1 hfiring with hnow | hlater
    · obtain ⟨-, -, due, hsome, hle⟩ := firing?_eq_some_iff.1 (Option.mem_toList.1 hnow)
      exact Nat.le_trans (hdue due hsome) hle
    · exact ih hallow.perform (hallow.le_period hgap)
        (le_due_of_perform hallow hgap hdue hinstant) hrest firing hlater

/-- After a poll that finds the timer due, nothing fires before an interval has passed. -/
theorem add_le_of_mem_firings_resume {gap now : Nat}
    (hallow : AllowGap timer.resolution gap operations) (hgap : gap ≤ timer.period)
    (hinstants : ∀ instant ∈ operations.filterMap Operation.instant?, now ≤ instant) :
    ∀ firing ∈ (timer.resume now).firings operations, now + gap ≤ firing.1 := by
  refine add_le_of_mem_firings hallow hgap ?_ hinstants
  rintro due ⟨⟩
  exact Nat.add_le_add_left hgap now

theorem mem_instants_of_mem_firings {firing : Nat × Nat}
    (hfiring : firing ∈ timer.firings operations) :
    firing.1 ∈ operations.filterMap Operation.instant? := by
  induction operations generalizing timer with
  | nil => cases hfiring
  | cons operation operations ih =>
    rcases List.mem_append.1 hfiring with hnow | hlater
    · obtain ⟨rfl, -⟩ := firing?_eq_some_iff.1 (Option.mem_toList.1 hnow)
      exact List.mem_cons_self
    · exact instants_subset operation operations (ih hlater)

theorem pairwise_firings {gap : Nat} (hallow : AllowGap timer.resolution gap operations)
    (hgap : gap ≤ timer.period) (horder : InOrder operations) :
    (timer.firings operations).Pairwise fun first second => first.1 + gap ≤ second.1 := by
  induction operations generalizing timer with
  | nil => exact .nil
  | cons operation operations ih =>
    have hlater : InOrder operations := horder.of_sublist (List.sublist_cons_self _ _)
    have hpairwise := ih hallow.perform (hallow.le_period hgap) hlater
    simp only [firings]
    cases hfiring : timer.firing? operation with
    | none => exact hpairwise
    | some firing =>
      obtain ⟨hpoll, -, due, hdue, hnow⟩ := firing?_eq_some_iff.1 hfiring
      subst hpoll
      have hnext : (timer.perform (.poll firing.1)).2 = timer.resume firing.1 :=
        congrArg Prod.snd (poll_of_due hdue hnow)
      refine List.pairwise_cons.2 ⟨?_, hpairwise⟩
      show ∀ second ∈ (timer.perform (.poll firing.1)).2.firings operations, _
      rw [hnext]
      exact add_le_of_mem_firings_resume hallow.tail hgap (List.pairwise_cons.1 horder).1

/-! ## The law -/

theorem Reflects.due_eq_some_iff (hpast : timer.Reflects past) {due : Nat} :
    timer.due? = some due ↔
      ∃ start, countingSince? timer.resolution past = some start ∧
        start + timer.period = due := by
  rw [hpast.due_eq, Option.map_eq_some_iff]

theorem Reflects.poll_iff (hpast : timer.Reflects past) (now handler : Nat) :
    (timer.poll now).1 = some handler ↔ lastHandler? past = some handler ∧
      ∃ start, countingSince? timer.resolution past = some start ∧
        start + timer.period ≤ now := by
  rw [poll_eq_some_iff, hpast.handler_eq]
  refine and_congr_right fun _ => ?_
  constructor
  · rintro ⟨due, hdue, hnow⟩
    obtain ⟨start, hstart, rfl⟩ := hpast.due_eq_some_iff.1 hdue
    exact ⟨start, hstart, hnow⟩
  · rintro ⟨start, hstart, hnow⟩
    exact ⟨_, hpast.due_eq_some_iff.2 ⟨start, hstart, rfl⟩, hnow⟩

theorem Reflects.nextDue?_iff {lib : Library} (hpast : lib.timer.Reflects past) (instant : Nat) :
    lib.nextDue? = some instant ↔ (lastHandler? past).isSome = true ∧
      ∃ start, countingSince? lib.timer.resolution past = some start ∧
        start + lib.timer.period = instant := by
  rw [← hpast.due_eq_some_iff, ← hpast.handler_eq, Library.nextDue?, isLive]
  cases lib.timer.due? <;> simp

/-- A poll that is due fires once, and nothing else fires before an interval has passed. -/
theorem firings_poll {now handler : Nat} (hfires : (timer.poll now).1 = some handler)
    (hkeeps : ∀ operation ∈ operations, operation.keepsInterval = true)
    (horder : InOrder (.poll now :: operations))
    (hsoon : ∀ instant ∈ operations.filterMap Operation.instant?,
      instant < now + timer.period) :
    timer.firings (.poll now :: operations) = [(now, handler)] := by
  obtain ⟨hhandler, due, hdue, hnow⟩ := poll_eq_some_iff.1 hfires
  have hfiring : timer.firing? (.poll now) = some (now, handler) :=
    firing?_eq_some_iff.2 ⟨rfl, hhandler, due, hdue, hnow⟩
  have hnext : (timer.perform (.poll now)).2 = timer.resume now :=
    congrArg Prod.snd (poll_of_due hdue hnow)
  have hlate : ∀ firing ∈ (timer.resume now).firings operations,
      now + timer.period ≤ firing.1 :=
    add_le_of_mem_firings_resume (allowGap_of_keepsInterval _ _ hkeeps) (Nat.le_refl _)
      (List.pairwise_cons.1 horder).1
  have hquiet : (timer.resume now).firings operations = [] := by
    refine List.eq_nil_iff_forall_not_mem.2 fun firing hmem => ?_
    exact Nat.not_lt.2 (hlate firing hmem) (hsoon _ (mem_instants_of_mem_firings hmem))
  rw [firings, hfiring, hnext, hquiet]
  rfl

/-- Whatever is done to a timer, in any order, it fires exactly when it is due: when a handler is
bound and a full interval has passed since the timer was set, resumed or found due last. So its
firings are at least an interval apart, and a late poll leaves nothing to catch up with. -/
theorem punctual (resolution : Nat) (operations : List Operation) (horder : InOrder operations) :
    Punctual resolution operations where
  bounded := (reflects_after resolution operations).bounds
  period_eq := by rw [period, span, resolution_performAll]
  reflects := reflects_after resolution operations
  poll_iff := by
    have hpoll := (reflects_after resolution operations).poll_iff
    rwa [resolution_performAll] at hpoll
  announced := by
    intro lib htimer instant
    have hpast := reflects_after resolution operations
    rw [← htimer] at hpast ⊢
    have hresolution : lib.timer.resolution = resolution := by rw [htimer, resolution_performAll]
    have hnext := hpast.nextDue?_iff instant
    rwa [hresolution] at hnext
  apart := by
    refine pairwise_firings (fun value _ _ => ?_) ?_ horder
    · exact Nat.mul_le_mul_left resolution (intervalOf_bounds value).1
    · exact Nat.mul_le_mul_left resolution (lastInterval_bounds []).1
  apart_of_keepsInterval := by
    intro earlier stretch later hsplit hkeeps
    have hpart : stretch <:+: operations := ⟨earlier, later, hsplit.symm⟩
    exact pairwise_firings (allowGap_of_keepsInterval _ _ hkeeps) (Nat.le_refl _)
      (horder.of_sublist hpart.sublist)
  once := by
    intro earlier stretch later start now handler hsplit hkeeps hhandler hstart hdue hsoon
    have hpart : .poll now :: stretch <:+: operations := ⟨earlier, later, hsplit.symm⟩
    have hpoll := (reflects_after resolution earlier).poll_iff now handler
    rw [resolution_performAll] at hpoll
    exact firings_poll (hpoll.2 ⟨hhandler, start, hstart, hdue⟩) hkeeps
      (horder.of_sublist hpart.sublist) hsoon

/-- A poll that comes almost forty intervals late, and what follows it, in microseconds. -/
theorem punctual_late :
    InOrder [.setInterval "25.9" 3, .bind 7, .poll 1000000, .poll 1000000, .poll 1024999,
        .poll 1025000] ∧
      (performAll { resolution := 1000 } [.setInterval "25.9" 3, .bind 7]).firings
        [.poll 1000000, .poll 1000000, .poll 1024999] = [(1000000, 7)] := by
  have horder : InOrder [.setInterval "25.9" 3, .bind 7, .poll 1000000, .poll 1000000,
      .poll 1024999, .poll 1025000] := by
    unfold InOrder
    decide
  have hperiod : (performAll { resolution := 1000 } [.setInterval "25.9" 3, .bind 7]).period =
      25000 := by
    decide +kernel
  have hsplit : [.setInterval "25.9" 3, .bind 7, .poll 1000000, .poll 1000000, .poll 1024999,
        .poll 1025000] =
      [.setInterval "25.9" 3, .bind 7] ++ .poll 1000000 :: [.poll 1000000, .poll 1024999] ++
        [Operation.poll 1025000] := rfl
  refine ⟨horder, (punctual 1000 _ horder).once hsplit (by decide) rfl rfl ?_ ?_⟩
  · rw [hperiod]
    decide
  · rw [hperiod]
    decide

end Timer

end SmallBasic
