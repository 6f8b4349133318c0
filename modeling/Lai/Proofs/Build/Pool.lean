import Lai.Build
/-!
# Scanning with a pool of workers

Several documents may be scanned at a time, each by a task of its own. A task first looks whether the
group has been called off, and fails if it has; otherwise it scans its document and writes the result
into its own slot. The group is called off by whoever asked for the build, at any moment, or by a task
that fails. In whatever order the tasks take their steps, they come to what scanning one document after
the other comes to, or, if any of them fails, to nothing at all.
-/

namespace Lai.Build

/-- How far a task has got. -/
inductive Phase where
  | waiting
  | started
  | cleared
  | finished
  | failed
  deriving DecidableEq, Repr

namespace Phase

def running : Phase → Bool
  | .started | .cleared => true
  | _ => false

def ended : Phase → Bool
  | .finished | .failed => true
  | _ => false

/-- The number of steps before the task is over, at most. -/
def left : Phase → Nat
  | .waiting => 3
  | .started => 2
  | .cleared => 1
  | .finished | .failed => 0

end Phase

/-- The tasks of a group, one for each document, the slots for their results, and whether the build
has been called off. -/
structure Pool where
  cancelled : Bool := false
  tasks : List Phase
  slots : List (Option Scan)
  deriving DecidableEq, Repr

/-- What may happen next: the build is called off, or the task with the given number starts, looks
whether the group has been called off, or writes its result. -/
inductive Event where
  | cancel
  | start (i : Nat)
  | check (i : Nat)
  | write (i : Nat)
  deriving DecidableEq, Repr

namespace Pool

def ofDocuments (docs : List Document) : Pool where
  tasks := docs.map fun _ => .waiting
  slots := docs.map fun _ => none

def running (p : Pool) : Nat :=
  p.tasks.countP Phase.running

/-- Whether the group has been called off. -/
def stopped (p : Pool) : Bool :=
  p.cancelled || p.tasks.contains .failed

def complete (p : Pool) : Bool :=
  p.tasks.all Phase.ended

/-- What the event makes of the pool, if it may happen. Tasks start in any order, as long as no more
than `workers` of them are worked on at a time. -/
def step? (workers : Nat) (docs : List Document) (p : Pool) : Event → Option Pool
  | .cancel => some { p with cancelled := true }
  | .start i =>
    if p.tasks[i]? = some .waiting ∧ p.running < workers then some { p with tasks := p.tasks.set i .started }
    else none
  | .check i =>
    if p.tasks[i]? = some .started then
      some { p with tasks := p.tasks.set i (if p.stopped then .failed else .cleared) }
    else none
  | .write i =>
    match p.tasks[i]?, docs[i]? with
    | some .cleared, some doc =>
      some { p with tasks := p.tasks.set i .finished, slots := p.slots.set i (some (Scan.ofLines doc.lines)) }
    | _, _ => none

/-- What a sequence of events makes of the pool, if each of them may happen in its turn. -/
def exec (workers : Nat) (docs : List Document) (p : Pool) (events : List Event) : Option Pool :=
  events.foldlM (step? workers docs) p

/-- Some task that looks whether the group has been called off finds that it has. -/
def SeesStop (workers : Nat) (docs : List Document) (p : Pool) (events : List Event) : Prop :=
  ∃ before i after q, events = before ++ .check i :: after ∧ p.exec workers docs before = some q ∧ q.stopped = true

/-- The first stage of a build, all tasks being over. If none has failed, it gives the tokens and the
reports of all slots in the order of the documents. -/
def finish (docs : List Document) (p : Pool) (outcome : Outcome) : Outcome :=
  if p.tasks.contains .failed then { outcome with tokens := none, failure := some .cancelled }
  else
    let scans := p.slots.map (·.getD {})
    { outcome with
      tokens := some (scans.map (·.tokens))
      log := outcome.log.reportAll ((docs.zip scans).flatMap fun (doc, scan) => scan.diagnostics doc.name) }

variable {workers : Nat} {docs : List Document} {p q : Pool} {e : Event} {events : List Event}

/-! ### Single steps -/

/-- The ways in which a pool changes. -/
inductive Step (workers : Nat) (docs : List Document) (p : Pool) : Event → Pool → Prop where
  | cancel : Step workers docs p .cancel { p with cancelled := true }
  | start {i : Nat} (htask : p.tasks[i]? = some .waiting) (hfree : p.running < workers) :
      Step workers docs p (.start i) { p with tasks := p.tasks.set i .started }
  | clear {i : Nat} (htask : p.tasks[i]? = some .started) (hgo : p.stopped = false) :
      Step workers docs p (.check i) { p with tasks := p.tasks.set i .cleared }
  | fail {i : Nat} (htask : p.tasks[i]? = some .started) (hstop : p.stopped = true) :
      Step workers docs p (.check i) { p with tasks := p.tasks.set i .failed }
  | write {i : Nat} {doc : Document} (htask : p.tasks[i]? = some .cleared) (hdoc : docs[i]? = some doc) :
      Step workers docs p (.write i)
        { p with tasks := p.tasks.set i .finished, slots := p.slots.set i (some (Scan.ofLines doc.lines)) }

theorem step?_eq_some_iff : p.step? workers docs e = some q ↔ Step workers docs p e q := by
  constructor
  · intro h
    cases e with
    | cancel =>
        obtain rfl := Option.some.inj h
        exact .cancel
    | start i =>
        rw [step?, Option.ite_none_right_eq_some] at h
        obtain ⟨⟨htask, hfree⟩, h⟩ := h
        obtain rfl := Option.some.inj h
        exact .start htask hfree
    | check i =>
        rw [step?, Option.ite_none_right_eq_some] at h
        obtain ⟨htask, h⟩ := h
        obtain rfl := Option.some.inj h
        cases hstopped : p.stopped with
        | true => exact .fail htask hstopped
        | false => exact .clear htask hstopped
    | write i =>
        rw [step?] at h
        split at h
        · rename_i doc htask hdoc
          obtain rfl := Option.some.inj h
          exact .write htask hdoc
        · exact absurd h (Option.some_ne_none q).symm
  · intro h
    cases h with
    | cancel => rfl
    | start htask hfree => exact if_pos ⟨htask, hfree⟩
    | clear htask hgo => rw [step?, if_pos htask, hgo, if_neg Bool.false_ne_true]
    | fail htask hstop => rw [step?, if_pos htask, hstop, if_pos rfl]
    | write htask hdoc => rw [step?, htask, hdoc]

theorem exec_cons_eq_some_iff : p.exec workers docs (e :: events) = some q ↔
    ∃ r, Step workers docs p e r ∧ r.exec workers docs events = some q := by
  simp only [exec, List.foldlM_cons, ← step?_eq_some_iff]
  exact Option.bind_eq_some_iff

/-! ### Slots -/

/-- What holds of a pool at any time: no more tasks are worked on than there are workers, and the slot
of a task that has finished holds the scan of its document. -/
structure Sound (workers : Nat) (docs : List Document) (p : Pool) : Prop where
  tasks_length : p.tasks.length = docs.length
  slots_length : p.slots.length = docs.length
  running_le : p.running ≤ workers
  written : ∀ (i : Nat) (doc : Document), docs[i]? = some doc → p.tasks[i]? = some .finished →
    p.slots[i]? = some (some (Scan.ofLines doc.lines))

theorem sound_ofDocuments (workers : Nat) (docs : List Document) : (ofDocuments docs).Sound workers docs := by
  have hnone : (ofDocuments docs).running = 0 := by
    rw [running, List.countP_eq_zero]
    intro s hs
    obtain ⟨_, _, rfl⟩ := List.mem_map.1 hs
    exact Bool.false_ne_true
  refine ⟨List.length_map _, List.length_map _, by omega, ?_⟩
  intro i doc hdoc hfinished
  rw [ofDocuments, List.getElem?_map, hdoc] at hfinished
  have hwaiting : Phase.waiting = .finished := Option.some.inj hfinished
  contradiction

theorem countP_running_set {tasks : List Phase} {i : Nat} {s : Phase} (htask : tasks[i]? = some s) (s' : Phase) :
    (tasks.set i s').countP Phase.running + s.running.toNat = tasks.countP Phase.running + s'.running.toNat := by
  obtain ⟨hi, rfl⟩ := List.getElem?_eq_some_iff.1 htask
  rw [List.countP_set hi]
  cases hrun : tasks[i].running with
  | false => cases s'.running <;> rfl
  | true =>
      have hpos : 0 < tasks.countP Phase.running := List.countP_pos_iff.2 ⟨_, List.getElem_mem hi, hrun⟩
      cases s'.running <;> simp <;> omega

/-- A task that goes on without finishing leaves the slots as they are. -/
theorem Sound.moved (h : p.Sound workers docs) {i : Nat} {s s' : Phase} (htask : p.tasks[i]? = some s)
    (hs' : s' ≠ .finished) (hrunning : p.running + s'.running.toNat ≤ workers + s.running.toNat) :
    Sound workers docs { p with tasks := p.tasks.set i s' } := by
  refine ⟨by rw [List.length_set, h.tasks_length], h.slots_length, ?_, ?_⟩
  · have hcount := countP_running_set htask s'
    change (p.tasks.set i s').countP Phase.running ≤ workers
    unfold running at hrunning
    omega
  · intro j doc hdoc hfinished
    by_cases hij : i = j
    · subst hij
      rw [List.getElem?_set_self (List.getElem?_eq_some_iff.1 htask).1] at hfinished
      exact absurd (Option.some.inj hfinished) hs'
    · rw [List.getElem?_set_ne hij] at hfinished
      exact h.written j doc hdoc hfinished

theorem Sound.wrote (h : p.Sound workers docs) {i : Nat} {doc : Document} (htask : p.tasks[i]? = some .cleared)
    (hdoc : docs[i]? = some doc) : Sound workers docs
      { p with tasks := p.tasks.set i .finished, slots := p.slots.set i (some (Scan.ofLines doc.lines)) } := by
  refine ⟨by rw [List.length_set, h.tasks_length], by rw [List.length_set, h.slots_length], ?_, ?_⟩
  · have hcount : (p.tasks.set i .finished).countP Phase.running + 1 = p.running := countP_running_set htask .finished
    have hrunning := h.running_le
    change (p.tasks.set i .finished).countP Phase.running ≤ workers
    omega
  · intro j other hother hfinished
    by_cases hij : i = j
    · subst hij
      obtain rfl := Option.some.inj (hdoc.symm.trans hother)
      have hi := (List.getElem?_eq_some_iff.1 hdoc).1
      exact List.getElem?_set_self (by rw [h.slots_length]; exact hi)
    · rw [List.getElem?_set_ne hij] at hfinished ⊢
      exact h.written j other hother hfinished

theorem Sound.step (h : p.Sound workers docs) (hstep : Step workers docs p e q) : q.Sound workers docs := by
  have hrunning := h.running_le
  cases hstep with
  | cancel => exact ⟨h.tasks_length, h.slots_length, h.running_le, h.written⟩
  | start htask hfree => exact h.moved htask (by decide) hfree
  | clear htask => exact h.moved htask (by decide) (Nat.add_le_add_right hrunning 1)
  | fail htask => exact h.moved htask (by decide) (Nat.le_add_right_of_le hrunning)
  | write htask hdoc => exact h.wrote htask hdoc

theorem Sound.exec (h : p.Sound workers docs) (hexec : p.exec workers docs events = some q) : q.Sound workers docs := by
  induction events generalizing p with
  | nil => exact Option.some.inj hexec ▸ h
  | cons e events ih =>
      obtain ⟨r, hstep, hrest⟩ := exec_cons_eq_some_iff.1 hexec
      exact ih (h.step hstep) hrest

/-- Once all tasks have finished, the slots hold the scans of the documents. -/
theorem Sound.scans_eq (h : p.Sound workers docs) (hcomplete : p.complete = true) (hfailed : .failed ∉ p.tasks) :
    p.slots.map (·.getD {}) = docs.map fun doc => Scan.ofLines doc.lines := by
  apply List.ext_getElem?
  intro i
  rw [List.getElem?_map, List.getElem?_map]
  cases hdoc : docs[i]? with
  | none =>
      have hi : p.slots.length ≤ i := by
        rw [h.slots_length]
        exact List.getElem?_eq_none_iff.1 hdoc
      rw [List.getElem?_eq_none hi]
      rfl
  | some doc =>
      have hi : i < p.tasks.length := by
        rw [h.tasks_length]
        exact (List.getElem?_eq_some_iff.1 hdoc).1
      have htask := List.getElem?_eq_getElem hi
      have hmem := List.mem_of_getElem? htask
      have hended := List.all_eq_true.1 hcomplete _ hmem
      generalize p.tasks[i] = s at htask hmem hended
      cases s with
      | finished =>
          rw [h.written i doc hdoc htask]
          rfl
      | failed => exact absurd hmem hfailed
      | waiting | started | cleared => exact absurd hended Bool.false_ne_true

/-- If no task has failed, the pool comes to what scanning the documents one by one comes to. -/
theorem Sound.finish_eq_tokenize (h : p.Sound workers docs) (hcomplete : p.complete = true)
    (hfailed : .failed ∉ p.tasks) (sequential : Int) (outcome : Outcome) :
    p.finish docs outcome = tokenize sequential docs outcome := by
  have hnone : ¬ p.tasks.contains .failed = true := by rwa [List.contains_iff_mem]
  rw [finish, if_neg hnone, h.scans_eq hcomplete hfailed, tokenize, scanAll, mapWorkers_eq_map]

/-! ### Failures -/

theorem failed_mem_set_iff {tasks : List Phase} {i : Nat} {s s' : Phase} (htask : tasks[i]? = some s) (hs : s ≠ .failed) :
    .failed ∈ tasks.set i s' ↔ .failed ∈ tasks ∨ s' = .failed := by
  obtain ⟨hi, rfl⟩ := List.getElem?_eq_some_iff.1 htask
  constructor
  · intro h
    rcases List.mem_or_eq_of_mem_set h with h | h
    · exact .inl h
    · exact .inr h.symm
  · intro h
    rcases h with h | rfl
    · obtain ⟨j, hj, hfailed⟩ := List.getElem_of_mem h
      have hij : i ≠ j := by
        rintro rfl
        exact hs hfailed
      apply List.mem_of_getElem?
      rw [List.getElem?_set_ne hij, List.getElem?_eq_getElem hj, hfailed]
    · exact List.mem_set hi _

/-- Tasks fail only in the step in which they find the group called off. -/
theorem Step.failed_mem_iff (hstep : Step workers docs p e q) :
    .failed ∈ q.tasks ↔ .failed ∈ p.tasks ∨ (∃ i, e = .check i) ∧ p.stopped = true := by
  cases hstep with
  | cancel => simp
  | start htask => simp [failed_mem_set_iff htask]
  | clear htask hgo => simp [failed_mem_set_iff htask, hgo]
  | fail htask hstop => simp [failed_mem_set_iff htask, hstop]
  | write htask => simp [failed_mem_set_iff htask]

theorem seesStop_cons_iff {r : Pool} (hstep : Step workers docs p e r) :
    p.SeesStop workers docs (e :: events) ↔
      (∃ i, e = .check i) ∧ p.stopped = true ∨ r.SeesStop workers docs events := by
  constructor
  · rintro ⟨before, i, after, q, hevents, hq, hstop⟩
    cases before with
    | nil =>
        obtain ⟨rfl, rfl⟩ := List.cons.inj hevents
        obtain rfl := Option.some.inj hq
        exact .inl ⟨⟨i, rfl⟩, hstop⟩
    | cons first before =>
        obtain ⟨rfl, rfl⟩ := List.cons.inj hevents
        obtain ⟨r', hstep', hrest⟩ := exec_cons_eq_some_iff.1 hq
        obtain rfl : r = r' := by
          rw [← step?_eq_some_iff] at hstep hstep'
          exact Option.some.inj (hstep.symm.trans hstep')
        exact .inr ⟨before, i, after, q, rfl, hrest, hstop⟩
  · rintro (⟨⟨i, rfl⟩, hstop⟩ | ⟨before, i, after, q, rfl, hq, hstop⟩)
    · exact ⟨[], i, events, p, rfl, rfl, hstop⟩
    · exact ⟨e :: before, i, after, q, rfl, exec_cons_eq_some_iff.2 ⟨r, hstep, hq⟩, hstop⟩

theorem failed_mem_iff (hexec : p.exec workers docs events = some q) :
    .failed ∈ q.tasks ↔ .failed ∈ p.tasks ∨ p.SeesStop workers docs events := by
  induction events generalizing p with
  | nil =>
      obtain rfl := Option.some.inj hexec
      simp [SeesStop]
  | cons e events ih =>
      obtain ⟨r, hstep, hrest⟩ := exec_cons_eq_some_iff.1 hexec
      rw [ih hrest, hstep.failed_mem_iff, seesStop_cons_iff hstep, or_assoc]

theorem failed_mem_iff_seesStop (hexec : (ofDocuments docs).exec workers docs events = some p) :
    .failed ∈ p.tasks ↔ (ofDocuments docs).SeesStop workers docs events := by
  have hnone : .failed ∉ (ofDocuments docs).tasks := by simp [ofDocuments]
  rw [failed_mem_iff hexec, or_iff_right hnone]

/-! ### Progress -/

/-- The number of steps that the tasks may still take. -/
def stepsLeft (tasks : List Phase) : Nat :=
  tasks.foldr (fun s n => s.left + n) 0

theorem stepsLeft_ofDocuments (docs : List Document) : stepsLeft (ofDocuments docs).tasks = 3 * docs.length := by
  induction docs with
  | nil => rfl
  | cons doc docs ih =>
      change 3 + stepsLeft (ofDocuments docs).tasks = 3 * (docs.length + 1)
      omega

theorem stepsLeft_set {tasks : List Phase} {i : Nat} {s : Phase} (htask : tasks[i]? = some s) (s' : Phase) :
    stepsLeft (tasks.set i s') + s.left = stepsLeft tasks + s'.left := by
  induction tasks generalizing i with
  | nil => simp at htask
  | cons t tasks ih =>
      simp only [stepsLeft, List.foldr_cons] at ih ⊢
      cases i with
      | zero =>
          obtain rfl : t = s := by simpa using htask
          rw [List.set_cons_zero, List.foldr_cons]
          omega
      | succ i =>
          have hrest := ih (by simpa using htask)
          rw [List.set_cons_succ, List.foldr_cons]
          omega

/-- Every step but calling off takes a task forward. -/
theorem Step.exists_set (hstep : Step workers docs p e q) (he : e ≠ .cancel) :
    ∃ i s s', p.tasks[i]? = some s ∧ q.tasks = p.tasks.set i s' ∧ s'.left < s.left := by
  cases hstep with
  | cancel => exact absurd rfl he
  | start htask | clear htask | fail htask | write htask => exact ⟨_, _, _, htask, rfl, by decide⟩

theorem Step.stepsLeft_lt (hstep : Step workers docs p e q) (he : e ≠ .cancel) : stepsLeft q.tasks < stepsLeft p.tasks := by
  obtain ⟨i, s, s', htask, htasks, hlt⟩ := hstep.exists_set he
  have hset := stepsLeft_set htask s'
  rw [htasks]
  omega

theorem count_add_stepsLeft_le (hexec : p.exec workers docs events = some q) :
    events.countP (· ≠ .cancel) + stepsLeft q.tasks ≤ stepsLeft p.tasks := by
  induction events generalizing p with
  | nil =>
      obtain rfl := Option.some.inj hexec
      simp
  | cons e events ih =>
      obtain ⟨r, hstep, hrest⟩ := exec_cons_eq_some_iff.1 hexec
      have hle := ih hrest
      by_cases he : e = .cancel
      · subst he
        cases hstep
        rw [List.countP_cons_of_neg (by simp)]
        exact hle
      · have hlt := hstep.stepsLeft_lt he
        rw [List.countP_cons_of_pos (by simpa using he)]
        omega

/-- As long as a task is not over, some task can take a step. -/
theorem Sound.exists_step (h : p.Sound workers docs) (hworkers : 0 < workers) (hcomplete : p.complete = false) :
    ∃ e q, e ≠ .cancel ∧ Step workers docs p e q := by
  -- A task that is worked on can go on. If there is none, all workers are free for one that waits.
  by_cases hrunning : ∃ s ∈ p.tasks, s.running = true
  · obtain ⟨s, hs, hrun⟩ := hrunning
    obtain ⟨i, hi, rfl⟩ := List.getElem_of_mem hs
    have htask := List.getElem?_eq_getElem hi
    generalize p.tasks[i] = s at htask hrun
    cases s with
    | started =>
        cases hstopped : p.stopped with
        | true => exact ⟨.check i, _, by simp, .fail htask hstopped⟩
        | false => exact ⟨.check i, _, by simp, .clear htask hstopped⟩
    | cleared =>
        have hdoc : docs[i]? = some (docs.get ⟨i, by rw [← h.tasks_length]; exact hi⟩) := by simp
        exact ⟨.write i, _, by simp, .write htask hdoc⟩
    | waiting | finished | failed => exact absurd hrun Bool.false_ne_true
  · have hzero : p.running = 0 := by
      rw [running, List.countP_eq_zero]
      intro s hs hrun
      exact hrunning ⟨s, hs, hrun⟩
    obtain ⟨s, hs, hended⟩ := List.all_eq_false.1 hcomplete
    have hrun : ¬ s.running = true := fun hrun => hrunning ⟨s, hs, hrun⟩
    obtain ⟨i, hi, rfl⟩ := List.getElem_of_mem hs
    have htask := List.getElem?_eq_getElem hi
    generalize p.tasks[i] = s at htask hended hrun
    cases s with
    | waiting => exact ⟨.start i, _, by simp, .start htask (by omega)⟩
    | started | cleared => exact absurd rfl hrun
    | finished | failed => exact absurd rfl hended

theorem Sound.exists_completion (h : p.Sound workers docs) (hworkers : 0 < workers) :
    ∃ more q, .cancel ∉ more ∧ p.exec workers docs more = some q ∧ q.complete = true := by
  induction hleft : stepsLeft p.tasks using Nat.strongRecOn generalizing p with
  | ind n ih =>
      cases hcomplete : p.complete with
      | true => exact ⟨[], p, List.not_mem_nil, rfl, hcomplete⟩
      | false =>
          obtain ⟨e, r, he, hstep⟩ := h.exists_step hworkers hcomplete
          have hlt := hstep.stepsLeft_lt he
          rw [hleft] at hlt
          obtain ⟨more, q, hmore, hexec, hq⟩ := ih (stepsLeft r.tasks) hlt (h.step hstep) rfl
          refine ⟨e :: more, q, ?_, exec_cons_eq_some_iff.2 ⟨r, hstep, hexec⟩, hq⟩
          simpa [hmore] using he.symm

end Pool

open Pool

/-- In whatever order the tasks of a pool take their steps, at most `workers` are worked on at a time,
they take no more than three steps for each document, and they can all get to their ends. If by then
none has found the group called off, the pool comes to what scanning one document after the other comes
to; otherwise there are no tokens, and nothing is reported. -/
theorem pool_refines_sequential (workers : Int) (hworkers : 1 < workers) (docs : List Document) (events : List Event)
    (p : Pool) (hexec : (ofDocuments docs).exec workers.toNat docs events = some p) :
    p.running ≤ workers ∧
    events.countP (· ≠ .cancel) ≤ 3 * docs.length ∧
    (∃ more q, .cancel ∉ more ∧ p.exec workers.toNat docs more = some q ∧ q.complete = true) ∧
    (p.complete = true → ∀ outcome : Outcome,
      (¬ (ofDocuments docs).SeesStop workers.toNat docs events →
        p.finish docs outcome = tokenize workers docs outcome ∧ p.finish docs outcome = tokenize 1 docs outcome) ∧
      ((ofDocuments docs).SeesStop workers.toNat docs events →
        p.finish docs outcome = { outcome with tokens := none, failure := some .cancelled })) := by
  have hsound := (sound_ofDocuments workers.toNat docs).exec hexec
  have hcount := count_add_stepsLeft_le hexec
  rw [stepsLeft_ofDocuments] at hcount
  have hrunning := hsound.running_le
  refine ⟨by omega, by omega, hsound.exists_completion (by omega), ?_⟩
  intro hcomplete outcome
  rw [← failed_mem_iff_seesStop hexec]
  constructor
  · intro hfailed
    exact ⟨hsound.finish_eq_tokenize hcomplete hfailed workers outcome, hsound.finish_eq_tokenize hcomplete hfailed 1 outcome⟩
  · intro hfailed
    exact if_pos (List.contains_iff_mem.2 hfailed)

def mixed : List Document := [⟨"a", ["?"]⟩, ⟨"b", ["x"]⟩, ⟨"c", ["\""]⟩]

def lateCancel : List Event :=
  [.start 0, .start 1, .check 1, .write 1, .start 2, .check 2, .check 0, .cancel, .write 2, .write 0]

def earlyCancel : List Event :=
  [.start 0, .start 1, .check 1, .write 1, .cancel, .start 2, .check 2, .check 0]

/-- Two workers and three documents: called off behind the last look it makes no difference, before it
nothing is left of the document already scanned. -/
theorem pool_of_two_workers :
    (∃ p, (ofDocuments mixed).exec 2 mixed lateCancel = some p ∧ p.complete = true ∧
      p.finish mixed {} = tokenize 1 mixed {}) ∧
    ∃ p, (ofDocuments mixed).exec 2 mixed earlyCancel = some p ∧ p.complete = true ∧
      p.finish mixed {} = { failure := some .cancelled } := by
  have hlate : (ofDocuments mixed).exec 2 mixed lateCancel =
      some ⟨true, [.finished, .finished, .finished], mixed.map fun doc => some (Scan.ofLines doc.lines)⟩ := by
    decide +kernel
  have hearly : (ofDocuments mixed).exec 2 mixed earlyCancel =
      some ⟨true, [.failed, .finished, .failed], [none, some (Scan.ofLines ["x"]), none]⟩ := by
    decide +kernel
  have hnone : ¬ (ofDocuments mixed).SeesStop 2 mixed lateCancel := by
    rw [← failed_mem_iff_seesStop hlate]
    decide
  have hsome : (ofDocuments mixed).SeesStop 2 mixed earlyCancel := by
    rw [← failed_mem_iff_seesStop hearly]
    decide
  exact ⟨⟨_, hlate, rfl, (((pool_refines_sequential 2 (by decide) mixed lateCancel _ hlate).2.2.2 rfl {}).1 hnone).2⟩,
    _, hearly, rfl, ((pool_refines_sequential 2 (by decide) mixed earlyCancel _ hearly).2.2.2 rfl {}).2 hsome⟩

end Lai.Build
