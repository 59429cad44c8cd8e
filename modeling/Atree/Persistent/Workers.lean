import Atree.Persistent.FastCommit

/-! The goroutines of `FastCommit` as a step system: the caller, `numWorkers` encoders
and the buffered `jobs` and `results` channels, each step one channel operation and
a run any interleaving of steps; a send on a closed channel panics. -/

namespace Atree

/-- Where an encoder goroutine is. -/
inductive EncoderState (ε : Type) where
  | receiving
  | sending (result : EncodedSlabs ε)
  | exited

/-- The result an encoder holds and has not sent yet. -/
def EncoderState.pending {ε : Type} : EncoderState ε → Option (EncodedSlabs ε)
  | .sending result => some result
  | _ => none

/-- What an encoder has left to do: take a job, send what it holds, or exit. -/
def EncoderState.weight {ε : Type} : EncoderState ε → Nat
  | .receiving => 1
  | .sending _ => 3
  | .exited => 0

/-- Where the caller is: in its receive loop, running its deferred `close(results)`
and `close(jobs)`, or returned. -/
inductive CallerPhase where
  | receiving
  | closingResults
  | closingJobs
  | returned
  deriving DecidableEq

/-- The caller's steps left after its receive loop: leave it, and close both channels. -/
def CallerPhase.stepsLeft : CallerPhase → Nat
  | .receiving => 3
  | .closingResults => 2
  | .closingJobs => 1
  | .returned => 0

/-- The channels and goroutines of one `FastCommit` call. The caller's base-store
calls come after its receive loop and touch no channel. -/
structure FastCommitSystem (ε : Type) where
  jobs : List StorageID
  jobsClosed : Bool
  results : List (EncodedSlabs ε)
  resultsClosed : Bool
  caller : CallerPhase
  received : List (EncodedSlabs ε)
  failure : Option ε
  encoders : List (EncoderState ε)
  panicked : Bool

/-- A goroutine that may take a step. -/
inductive Party where
  | caller
  | encoder (i : Nat)

namespace FastCommitSystem

variable {ε : Type} (encode : StorageID → EncodedSlabs ε) (expected : Nat)

/-- The system once `FastCommit` has filled `jobs` with `keys` and started `numWorkers` encoders. -/
def start (keys : List StorageID) (numWorkers : Nat) : FastCommitSystem ε :=
  ⟨keys, false, [], false, .receiving, [], none, List.replicate numWorkers .receiving, false⟩

/-- The results the encoders hold and have not sent yet. -/
def pending (s : FastCommitSystem ε) : List (EncodedSlabs ε) := s.encoders.filterMap EncoderState.pending

/-- One step of a party, or `none` when it is blocked or done, or the program has
panicked. The caller expects `expected` results. -/
def step (s : FastCommitSystem ε) (party : Party) : Option (FastCommitSystem ε) :=
  if s.panicked then none
  else
    match party with
    | .caller =>
      match s.caller with
      | .receiving =>
        if s.received.length = expected then some { s with caller := .closingResults }
        else
          match s.results with
          | [] => none
          | result :: rest =>
            match result.err with
            | some err => some { s with results := rest, caller := .closingResults, failure := some err }
            | none => some { s with results := rest, received := s.received ++ [result] }
      | .closingResults => some { s with resultsClosed := true, caller := .closingJobs }
      | .closingJobs => some { s with jobsClosed := true, caller := .returned }
      | .returned => none
    | .encoder i =>
      match s.encoders[i]? with
      | some .receiving =>
        match s.jobs with
        | id :: rest => some { s with jobs := rest, encoders := s.encoders.set i (.sending (encode id)) }
        | [] => if s.jobsClosed then some { s with encoders := s.encoders.set i .exited } else none
      | some (.sending result) =>
        if s.resultsClosed then some { s with panicked := true }
        else some { s with results := s.results ++ [result], encoders := s.encoders.set i .receiving }
      | _ => none

/-- What one step can do, each with the guard under which `step` takes it. -/
inductive Transition (s : FastCommitSystem ε) : FastCommitSystem ε → Prop
  | allReceived (receiving : s.caller = .receiving) (complete : s.received.length = expected) :
      Transition s { s with caller := .closingResults }
  | receiveError {result : EncodedSlabs ε} {rest : List (EncodedSlabs ε)} {err : ε}
      (receiving : s.caller = .receiving) (incomplete : s.received.length ≠ expected)
      (buffered : s.results = result :: rest) (failed : result.err = some err) :
      Transition s { s with results := rest, caller := .closingResults, failure := some err }
  | receive {result : EncodedSlabs ε} {rest : List (EncodedSlabs ε)}
      (receiving : s.caller = .receiving) (incomplete : s.received.length ≠ expected)
      (buffered : s.results = result :: rest) (succeeded : result.err = none) :
      Transition s { s with results := rest, received := s.received ++ [result] }
  | closeResults (closing : s.caller = .closingResults) :
      Transition s { s with resultsClosed := true, caller := .closingJobs }
  | closeJobs (closing : s.caller = .closingJobs) :
      Transition s { s with jobsClosed := true, caller := .returned }
  | takeJob {i : Nat} {id : StorageID} {rest : List StorageID}
      (idle : s.encoders[i]? = some .receiving) (queued : s.jobs = id :: rest) :
      Transition s { s with jobs := rest, encoders := s.encoders.set i (.sending (encode id)) }
  | exit {i : Nat} (idle : s.encoders[i]? = some .receiving) (noJobs : s.jobs = []) (closed : s.jobsClosed = true) :
      Transition s { s with encoders := s.encoders.set i .exited }
  | sendOnClosed {i : Nat} {result : EncodedSlabs ε} (holding : s.encoders[i]? = some (.sending result))
      (closed : s.resultsClosed = true) : Transition s { s with panicked := true }
  | send {i : Nat} {result : EncodedSlabs ε} (holding : s.encoders[i]? = some (.sending result))
      (resultsOpen : s.resultsClosed = false) :
      Transition s { s with results := s.results ++ [result], encoders := s.encoders.set i .receiving }

/-- A step is one of the transitions, taken before any panic. -/
theorem transition_of_step {s s' : FastCommitSystem ε} {party : Party}
    (stepped : step encode expected s party = some s') : s.panicked = false ∧ Transition encode expected s s' := by
  unfold step at stepped
  split at stepped
  · cases stepped
  rename_i running
  refine ⟨by simpa using running, ?_⟩
  split at stepped
  · split at stepped
    · rename_i receiving
      split at stepped
      · cases stepped; exact .allReceived receiving ‹_›
      · rename_i incomplete
        split at stepped
        · cases stepped
        · rename_i result rest buffered
          split at stepped <;> cases stepped
          · exact .receiveError receiving incomplete buffered ‹_›
          · exact .receive receiving incomplete buffered ‹_›
    · cases stepped; exact .closeResults ‹_›
    · cases stepped; exact .closeJobs ‹_›
    · cases stepped
  · split at stepped
    · rename_i idle
      split at stepped
      · cases stepped; exact .takeJob idle ‹_›
      · split at stepped
        · cases stepped; exact .exit idle ‹_› ‹_›
        · cases stepped
    · rename_i holding
      split at stepped <;> cases stepped
      · exact .sendOnClosed holding ‹_›
      · rename_i notClosed
        exact .send holding (by simpa using notClosed)
    · cases stepped

/-- The states some interleaving reaches from the start. -/
inductive Reachable (keys : List StorageID) (numWorkers : Nat) : FastCommitSystem ε → Prop
  | start : Reachable keys numWorkers (FastCommitSystem.start keys numWorkers)
  | step {s s' : FastCommitSystem ε} {party : Party} (reached : Reachable keys numWorkers s)
      (stepped : step encode keys.length s party = some s') : Reachable keys numWorkers s'

/-- The state after the parties of `schedule` take their steps in turn, if none is blocked. -/
def runSchedule (s : FastCommitSystem ε) : List Party → Option (FastCommitSystem ε)
  | [] => some s
  | party :: schedule => (step encode expected s party).bind fun s' => runSchedule s' schedule

private theorem reachable_of_runSchedule {keys : List StorageID} {numWorkers : Nat} {s s' : FastCommitSystem ε}
    (reached : Reachable encode keys numWorkers s) {schedule : List Party}
    (ran : runSchedule encode keys.length s schedule = some s') : Reachable encode keys numWorkers s' := by
  induction schedule generalizing s with
  | nil => cases ran; exact reached
  | cons party schedule ih =>
    simp only [runSchedule, Option.bind_eq_some] at ran
    obtain ⟨s'', stepped, rest⟩ := ran
    exact ih (.step reached stepped) rest

private theorem filterMap_set_perm {α β : Type} (f : α → Option β) {l : List α} {i : Nat} {a : α} (found : l[i]? = some a)
    (b : α) : ((f a).toList ++ (l.set i b).filterMap f).Perm ((f b).toList ++ l.filterMap f) := by
  induction l generalizing i with
  | nil => cases found
  | cons x xs ih =>
    cases i with
    | zero =>
      obtain rfl : x = a := by simpa using found
      simp only [List.set_cons_zero, List.filterMap_cons]
      cases f x <;> cases f b <;> simp [List.Perm.swap]
    | succ i =>
      rw [List.getElem?_cons_succ] at found
      simp only [List.set_cons_succ, List.filterMap_cons]
      cases f x with
      | none => exact ih found
      | some kept => exact List.perm_middle.trans (((ih found).cons kept).trans List.perm_middle.symm)

/-- The accounting of a `FastCommit` whose encodings all succeed: every key's encoding
is received, buffered in `results`, held by an encoder, or still a job; once the
caller has left its receive loop nothing is in flight; both channels are open while
it receives; an encoder has exited, or the caller returned, only after `close(jobs)`;
and no send has panicked. -/
structure Accounted (keys : List StorageID) (s : FastCommitSystem ε) : Prop where
  conserved : (s.received ++ s.results ++ s.pending ++ s.jobs.map encode).Perm (keys.map encode)
  drained : s.caller ≠ .receiving → s.jobs = [] ∧ s.results = [] ∧ s.pending = []
  channelsOpen : s.caller = .receiving → s.resultsClosed = false ∧ s.jobsClosed = false
  exitedClosed : .exited ∈ s.encoders → s.jobsClosed = true
  returnedClosed : s.caller = .returned → s.jobsClosed = true
  running : s.panicked = false

variable {encode}

private theorem mem_pending {s : FastCommitSystem ε} {i : Nat} {result : EncodedSlabs ε}
    (holding : s.encoders[i]? = some (.sending result)) : result ∈ s.pending :=
  List.mem_filterMap.mpr ⟨_, List.getElem?_mem holding, rfl⟩

private theorem accounted_start (keys : List StorageID) (numWorkers : Nat) :
    Accounted encode keys (start keys numWorkers) := by
  refine ⟨?_, nofun, fun _ => ⟨rfl, rfl⟩, fun exited => ?_, nofun, rfl⟩
  · simp [start, pending, List.filterMap_replicate, EncoderState.pending]
  · simp [start] at exited

/-- Every step keeps the accounting when every key encodes without error. -/
theorem accounted_step {keys : List StorageID} (encodes : ∀ id ∈ keys, (encode id).err = none)
    {s s' : FastCommitSystem ε} (accounted : Accounted encode keys s) {party : Party}
    (stepped : step encode keys.length s party = some s') : Accounted encode keys s' := by
  obtain ⟨conserved, drained, channelsOpen, exitedClosed, returnedClosed, running⟩ := accounted
  have inFlight : ∀ {i : Nat} {result : EncodedSlabs ε}, s.encoders[i]? = some (.sending result) →
      s.caller = .receiving := fun holding => by
    by_contra notReceiving
    exact List.ne_nil_of_mem (mem_pending holding) (drained notReceiving).2.2
  cases (transition_of_step _ _ stepped).2 with
  | allReceived receiving complete =>
    have lengths := conserved.length_eq
    simp only [List.length_append, List.length_map] at lengths
    have empty : s.jobs = [] ∧ s.results = [] ∧ s.pending = [] :=
      ⟨List.eq_nil_of_length_eq_zero (by omega), List.eq_nil_of_length_eq_zero (by omega),
        List.eq_nil_of_length_eq_zero (by omega)⟩
    exact ⟨conserved, fun _ => empty, nofun, exitedClosed, nofun, running⟩
  | @receiveError result _ _ _ _ buffered failed =>
    have arrived : result ∈ s.received ++ s.results ++ s.pending ++ s.jobs.map encode := by
      simp only [buffered, List.mem_append, List.mem_cons, true_or, or_true]
    obtain ⟨id, listed, same⟩ := List.mem_map.mp (conserved.subset arrived)
    rw [← same, encodes id listed] at failed
    cases failed
  | receive receiving _ buffered _ =>
    exact ⟨by simpa only [buffered, List.append_assoc, List.singleton_append, List.cons_append] using conserved,
      fun notReceiving => absurd receiving notReceiving, channelsOpen, exitedClosed, returnedClosed, running⟩
  | closeResults closing =>
    exact ⟨conserved, fun _ => drained (by simp [closing]), nofun, exitedClosed, nofun, running⟩
  | closeJobs closing =>
    exact ⟨conserved, fun _ => drained (by simp [closing]), nofun, fun _ => rfl, fun _ => rfl, running⟩
  | @takeJob i id rest idle queued =>
    have moved : (pending { s with encoders := s.encoders.set i (.sending (encode id)) }).Perm
        (encode id :: s.pending) := by
      simpa [EncoderState.pending] using filterMap_set_perm EncoderState.pending idle (.sending (encode id))
    refine ⟨?_, fun notReceiving => ?_, channelsOpen,
      fun exited => exitedClosed ((List.mem_or_eq_of_mem_set exited).resolve_right nofun), returnedClosed, running⟩
    · refine List.Perm.trans ?_ conserved
      rw [queued, List.map_cons]
      refine ((moved.append_left _).append_right _).trans ?_
      simp only [List.append_assoc, List.cons_append]
      exact (List.perm_middle.symm.append_left s.results).append_left s.received
    · have := (drained notReceiving).1
      rw [queued] at this
      cases this
  | @exit i idle _ closed =>
    have moved : (pending { s with encoders := s.encoders.set i .exited }).Perm s.pending := by
      simpa [EncoderState.pending] using filterMap_set_perm EncoderState.pending idle .exited
    refine ⟨((moved.append_left _).append_right _).trans conserved, fun notReceiving => ?_, channelsOpen,
      fun _ => closed, returnedClosed, running⟩
    obtain ⟨noJobs, noResults, nonePending⟩ := drained notReceiving
    exact ⟨noJobs, noResults, List.eq_nil_of_length_eq_zero (by rw [moved.length_eq, nonePending]; rfl)⟩
  | sendOnClosed holding closed =>
    rw [(channelsOpen (inFlight holding)).1] at closed
    cases closed
  | @send i result holding _ =>
    have moved : (result :: pending { s with encoders := s.encoders.set i .receiving }).Perm s.pending := by
      simpa [EncoderState.pending] using filterMap_set_perm EncoderState.pending holding .receiving
    refine ⟨List.Perm.trans ?_ conserved, fun notReceiving => absurd (inFlight holding) notReceiving, channelsOpen,
      fun exited => exitedClosed ((List.mem_or_eq_of_mem_set exited).resolve_right nofun), returnedClosed, running⟩
    have := (moved.append_left (s.received ++ s.results)).append_right (s.jobs.map encode)
    simpa only [List.append_assoc, List.cons_append, List.singleton_append] using this

/-- Every state an interleaving reaches is accounted, when every key encodes without error. -/
theorem accounted_of_reachable {keys : List StorageID} {numWorkers : Nat}
    (encodes : ∀ id ∈ keys, (encode id).err = none) {s : FastCommitSystem ε}
    (reached : Reachable encode keys numWorkers s) : Accounted encode keys s := by
  induction reached with
  | start => exact accounted_start keys numWorkers
  | step _ stepped accounted => exact accounted_step encodes accounted stepped

/-- Once the caller has left its receive loop, it has received every key's encoding. -/
theorem Accounted.received_perm {keys : List StorageID} {s : FastCommitSystem ε} (accounted : Accounted encode keys s)
    (done : s.caller ≠ .receiving) : s.received.Perm (keys.map encode) := by
  obtain ⟨noJobs, noResults, nonePending⟩ := accounted.drained done
  simpa [noJobs, noResults, nonePending] using accounted.conserved

private theorem Transition.encoders_length {expected : Nat} {s s' : FastCommitSystem ε}
    (transition : Transition encode expected s s') : s'.encoders.length = s.encoders.length := by
  cases transition <;> simp

private theorem encoders_length_of_reachable {keys : List StorageID} {numWorkers : Nat} {s : FastCommitSystem ε}
    (reached : Reachable encode keys numWorkers s) : s.encoders.length = numWorkers := by
  induction reached with
  | start => simp [start]
  | step _ stepped ih => rw [(transition_of_step _ _ stepped).2.encoders_length, ih]

/-- Each transition is a step of some party, as long as nothing has panicked. -/
theorem step_of_transition {expected : Nat} {s s' : FastCommitSystem ε} (running : s.panicked = false)
    (transition : Transition encode expected s s') : ∃ party, step encode expected s party = some s' := by
  cases transition with
  | allReceived receiving complete => exact ⟨.caller, by simp [step, running, receiving, complete]⟩
  | receiveError receiving incomplete buffered failed =>
    exact ⟨.caller, by simp [step, running, receiving, incomplete, buffered, failed]⟩
  | receive receiving incomplete buffered succeeded =>
    exact ⟨.caller, by simp [step, running, receiving, incomplete, buffered, succeeded]⟩
  | closeResults closing => exact ⟨.caller, by simp [step, running, closing]⟩
  | closeJobs closing => exact ⟨.caller, by simp [step, running, closing]⟩
  | @takeJob i _ _ idle queued => exact ⟨.encoder i, by simp [step, running, idle, queued]⟩
  | @exit i idle noJobs closed => exact ⟨.encoder i, by simp [step, running, idle, noJobs, closed]⟩
  | @sendOnClosed i _ holding closed => exact ⟨.encoder i, by simp [step, running, holding, closed]⟩
  | @send i _ holding resultsOpen => exact ⟨.encoder i, by simp [step, running, holding, resultsOpen]⟩

/-- No deadlock: when every key encodes without error and there is an encoder, a
reachable state from which no party can step is the end of `FastCommit`, with the
caller returned and every encoder exited. -/
theorem finished_of_stuck {keys : List StorageID} {numWorkers : Nat} (encodes : ∀ id ∈ keys, (encode id).err = none)
    (positive : 0 < numWorkers) {s : FastCommitSystem ε} (reached : Reachable encode keys numWorkers s)
    (stuck : ∀ party, step encode keys.length s party = none) :
    s.caller = .returned ∧ ∀ e ∈ s.encoders, e = .exited := by
  obtain ⟨conserved, drained, channelsOpen, exitedClosed, returnedClosed, running⟩ :=
    accounted_of_reachable encodes reached
  have disabled : ∀ {s'}, ¬ Transition encode keys.length s s' := fun transition => by
    obtain ⟨party, stepped⟩ := step_of_transition running transition
    rw [stuck party] at stepped
    cases stepped
  cases phase : s.caller with
  | receiving =>
    exfalso
    obtain ⟨resultsOpen, jobsOpen⟩ := channelsOpen phase
    have noResults : s.results = [] := by
      cases buffered : s.results with
      | nil => rfl
      | cons result rest =>
        by_cases complete : s.received.length = keys.length
        · exact (disabled (.allReceived phase complete)).elim
        · cases failed : result.err with
          | none => exact (disabled (.receive phase complete buffered failed)).elim
          | some err => exact (disabled (.receiveError phase complete buffered failed)).elim
    have nonePending : s.pending = [] := List.eq_nil_iff_forall_not_mem.mpr fun result member => by
      obtain ⟨e, listed, holds⟩ := List.mem_filterMap.mp member
      obtain ⟨i, found⟩ := List.getElem?_of_mem listed
      cases e with
      | sending result => exact disabled (.send found resultsOpen)
      | receiving => cases holds
      | exited => cases holds
    have noJobs : s.jobs = [] := by
      cases queued : s.jobs with
      | nil => rfl
      | cons id rest =>
        have someWorker : 0 < s.encoders.length := (encoders_length_of_reachable reached).symm ▸ positive
        obtain ⟨e, found⟩ : ∃ e, s.encoders[0]? = some e := ⟨_, List.getElem?_eq_getElem someWorker⟩
        cases e with
        | receiving => exact (disabled (.takeJob found queued)).elim
        | sending result => exact (List.ne_nil_of_mem (mem_pending found) nonePending).elim
        | exited =>
          rw [exitedClosed (List.getElem?_mem found)] at jobsOpen
          cases jobsOpen
    have lengths := conserved.length_eq
    simp only [List.length_append, List.length_map, noResults, nonePending, noJobs, List.length_nil] at lengths
    exact disabled (.allReceived phase (by omega))
  | closingResults => exact (disabled (.closeResults phase)).elim
  | closingJobs => exact (disabled (.closeJobs phase)).elim
  | returned =>
    refine ⟨rfl, fun e member => ?_⟩
    obtain ⟨noJobs, -, nonePending⟩ := drained (by simp [phase])
    obtain ⟨i, found⟩ := List.getElem?_of_mem member
    cases e with
    | receiving => exact (disabled (.exit found noJobs (returnedClosed phase))).elim
    | sending result => exact (List.ne_nil_of_mem (mem_pending found) nonePending).elim
    | exited => rfl

/-- A bound on the steps left: each job is taken, and its result sent and received;
each encoder exits; the caller leaves its loop and closes both channels; a send on a
closed channel ends the run. -/
def remainingSteps (s : FastCommitSystem ε) : Nat :=
  4 * s.jobs.length + s.results.length + (s.encoders.map EncoderState.weight).sum + s.caller.stepsLeft +
    if s.panicked then 0 else 1

private theorem sum_map_set {α : Type} (weight : α → Nat) {l : List α} {i : Nat} {a : α} (found : l[i]? = some a) (b : α) :
    ((l.set i b).map weight).sum + weight a = (l.map weight).sum + weight b := by
  induction l generalizing i with
  | nil => cases found
  | cons x xs ih =>
    cases i with
    | zero =>
      obtain rfl : x = a := by simpa using found
      simp only [List.set_cons_zero, List.map_cons, List.sum_cons]
      omega
    | succ i =>
      rw [List.getElem?_cons_succ] at found
      have := ih found
      simp only [List.set_cons_succ, List.map_cons, List.sum_cons]
      omega

private theorem remainingSteps_lt {expected : Nat} {s s' : FastCommitSystem ε} {party : Party}
    (stepped : step encode expected s party = some s') : remainingSteps s' < remainingSteps s := by
  obtain ⟨running, transition⟩ := transition_of_step _ _ stepped
  cases transition with
  | allReceived receiving =>
    simp only [remainingSteps, receiving, CallerPhase.stepsLeft]
    omega
  | receiveError receiving _ buffered =>
    simp only [remainingSteps, receiving, buffered, List.length_cons, CallerPhase.stepsLeft]
    omega
  | receive _ _ buffered =>
    simp only [remainingSteps, buffered, List.length_cons]
    omega
  | closeResults closing =>
    simp only [remainingSteps, closing, CallerPhase.stepsLeft]
    omega
  | closeJobs closing =>
    simp only [remainingSteps, closing, CallerPhase.stepsLeft]
    omega
  | @takeJob _ id _ idle queued =>
    have := sum_map_set EncoderState.weight idle (.sending (encode id))
    simp only [remainingSteps, queued, List.length_cons, EncoderState.weight] at this ⊢
    omega
  | exit idle =>
    have := sum_map_set EncoderState.weight idle .exited
    simp only [remainingSteps, EncoderState.weight] at this ⊢
    omega
  | sendOnClosed =>
    simp [remainingSteps, running]
  | send holding =>
    have := sum_map_set EncoderState.weight holding .receiving
    simp only [remainingSteps, List.length_append, List.length_singleton, EncoderState.weight] at this ⊢
    omega

/-- Every step of a run spends one of the steps left. -/
theorem runSchedule_length_le {expected : Nat} {s s' : FastCommitSystem ε} {schedule : List Party}
    (ran : runSchedule encode expected s schedule = some s') :
    schedule.length + remainingSteps s' ≤ remainingSteps s := by
  induction schedule generalizing s with
  | nil => cases ran; simp
  | cons party schedule ih =>
    simp only [runSchedule, Option.bind_eq_some] at ran
    obtain ⟨s'', stepped, rest⟩ := ran
    have := remainingSteps_lt stepped
    have := ih rest
    simp only [List.length_cons]
    omega

private theorem remainingSteps_start (keys : List StorageID) (numWorkers : Nat) :
    remainingSteps (start keys numWorkers : FastCommitSystem ε) = 4 * keys.length + numWorkers + 4 := by
  have workers : ((List.replicate numWorkers (.receiving : EncoderState ε)).map EncoderState.weight).sum =
      numWorkers := by
    induction numWorkers with
    | zero => rfl
    | succ n ih => simp only [List.replicate_succ, List.map_cons, List.sum_cons, ih, EncoderState.weight]; omega
  simp only [remainingSteps, start, workers, List.length_nil, CallerPhase.stepsLeft]
  simp

/-- No interleaving of the goroutines of `FastCommit` over `n` keys with `w`
encoders takes more than `4n + w + 4` steps, whatever `Encode` returns. -/
theorem runSchedule_start_length_le {keys : List StorageID} {numWorkers : Nat} {schedule : List Party}
    {s : FastCommitSystem ε} (ran : runSchedule encode keys.length (start keys numWorkers) schedule = some s) :
    schedule.length ≤ 4 * keys.length + numWorkers + 4 := by
  have spent := runSchedule_length_le ran
  rw [remainingSteps_start] at spent
  omega

/-- Every state has a run that goes on until no party can step. -/
theorem exists_stuck_run {expected : Nat} (s : FastCommitSystem ε) :
    ∃ schedule s', runSchedule encode expected s schedule = some s' ∧
      ∀ party, step encode expected s' party = none := by
  obtain ⟨n, h⟩ : ∃ n, remainingSteps s = n := ⟨_, rfl⟩
  induction n using Nat.strong_induction_on generalizing s with
  | _ n ih =>
    by_cases blocked : ∀ party, step encode expected s party = none
    · exact ⟨[], s, rfl, blocked⟩
    · obtain ⟨party, enabled⟩ := not_forall.mp blocked
      obtain ⟨s', stepped⟩ := Option.ne_none_iff_exists'.mp enabled
      obtain ⟨schedule, s'', ran, stuck⟩ := ih _ (h ▸ remainingSteps_lt stepped) s' rfl
      exact ⟨party :: schedule, s'', by simp [runSchedule, stepped, ran], stuck⟩

/-- When every key encodes without error and there is an encoder, every interleaving
of the goroutines, continued while some party can step, stops within `4n + w + 4`
steps with the caller returned, every encoder exited and no panic. -/
theorem maximal_run_finishes {keys : List StorageID} {numWorkers : Nat}
    (encodes : ∀ id ∈ keys, (encode id).err = none) (positive : 0 < numWorkers) {schedule : List Party}
    {s : FastCommitSystem ε} (ran : runSchedule encode keys.length (start keys numWorkers) schedule = some s)
    (stuck : ∀ party, step encode keys.length s party = none) :
    schedule.length ≤ 4 * keys.length + numWorkers + 4 ∧ s.caller = .returned ∧
      (∀ e ∈ s.encoders, e = .exited) ∧ s.panicked = false := by
  have reached := reachable_of_runSchedule _ .start ran
  obtain ⟨returned, exited⟩ := finished_of_stuck encodes positive reached stuck
  exact ⟨runSchedule_start_length_le ran, returned, exited, (accounted_of_reachable encodes reached).running⟩

/-- A finished interleaving, every key encoding without error, has received every
key's encoding. -/
theorem finished_received_perm {keys : List StorageID} {numWorkers : Nat}
    (encodes : ∀ id ∈ keys, (encode id).err = none) (positive : 0 < numWorkers) {schedule : List Party}
    {s : FastCommitSystem ε} (ran : runSchedule encode keys.length (start keys numWorkers) schedule = some s)
    (stuck : ∀ party, step encode keys.length s party = none) :
    s.caller = .returned ∧ s.panicked = false ∧ s.received.Perm (keys.map encode) := by
  have reached := reachable_of_runSchedule _ .start ran
  have accounted := accounted_of_reachable encodes reached
  obtain ⟨returned, -⟩ := finished_of_stuck encodes positive reached stuck
  exact ⟨returned, accounted.running, accounted.received_perm (by rw [returned]; decide)⟩

theorem maximal_run_finishes_of_no_keys :
    ∃ s, runSchedule (fun id => (⟨id, [0], none⟩ : EncodedSlabs Unit)) 0 (start [] 1)
        [.caller, .caller, .caller, .encoder 0] = some s ∧
      (∀ party, step (fun id => (⟨id, [0], none⟩ : EncodedSlabs Unit)) 0 s party = none) ∧
      s.caller = .returned ∧ s.panicked = false := by
  have encodes : ∀ id ∈ ([] : List StorageID), ((⟨id, [0], none⟩ : EncodedSlabs Unit)).err = none := nofun
  have ran : runSchedule (fun id => (⟨id, [0], none⟩ : EncodedSlabs Unit)) ([] : List StorageID).length
      (start [] 1) [.caller, .caller, .caller, .encoder 0] =
        some ⟨[], true, [], true, .returned, [], none, [.exited], false⟩ := rfl
  have stuck : ∀ party, step (fun id => (⟨id, [0], none⟩ : EncodedSlabs Unit)) ([] : List StorageID).length
      ⟨[], true, [], true, .returned, [], none, [.exited], false⟩ party = none := by
    intro party
    cases party with
    | caller => rfl
    | encoder i => cases i <;> rfl
  obtain ⟨-, returned, -, quiet⟩ := maximal_run_finishes encodes Nat.one_pos ran stuck
  exact ⟨_, ran, stuck, returned, quiet⟩

/-- No party can step at the start with no encoder and some job. -/
theorem step_start_without_workers {keys : List StorageID} (owned : keys ≠ []) (party : Party) :
    step encode keys.length (start keys 0 : FastCommitSystem ε) party = none := by
  cases party with
  | caller =>
    have waiting : ([] : List (EncodedSlabs ε)).length ≠ keys.length := fun none =>
      owned (List.eq_nil_of_length_eq_zero none.symm)
    simp only [step, start, Bool.false_eq_true, if_false, waiting]
  | encoder i => simp only [step, start, List.replicate_zero, List.getElem?_nil, Bool.false_eq_true, if_false]

/-- With no encoder, `FastCommit` never returns once there is an owned delta: no
interleaving takes a step, and the caller stays in its receive loop waiting for a
result that no goroutine will send. -/
theorem deadlocks_without_workers {keys : List StorageID} (owned : keys ≠ []) {s : FastCommitSystem ε}
    (reached : Reachable encode keys 0 s) : s.caller = .receiving ∧ ∀ party, step encode keys.length s party = none := by
  induction reached with
  | start => exact ⟨rfl, step_start_without_workers owned⟩
  | step _ stepped ih =>
    rw [ih.2 _] at stepped
    cases stepped

theorem deadlocks_without_workers_of_one_key :
    [PersistentSlabStorage.ownedID] ≠ [] ∧
      (start [PersistentSlabStorage.ownedID] 0 : FastCommitSystem Unit).caller = .receiving ∧
      step (fun id => (⟨id, [0], none⟩ : EncodedSlabs Unit)) 1 (start [PersistentSlabStorage.ownedID] 0) .caller =
        none ∧
      step (fun id => (⟨id, [0], none⟩ : EncodedSlabs Unit)) 1 (start [PersistentSlabStorage.ownedID] 0)
        (.encoder 0) = none := by
  have owned : [PersistentSlabStorage.ownedID] ≠ [] := List.cons_ne_nil _ _
  obtain ⟨waiting, stuck⟩ := deadlocks_without_workers owned .start
  exact ⟨owned, waiting, stuck .caller, stuck (.encoder 0)⟩

/-- The early return: the first encoder takes the first job and sends its failed
result; the caller receives it, returns, and closes `results` and then `jobs`; the
encoder takes the job still buffered in the closed `jobs` channel and sends its
encoding on the closed `results` channel. -/
def earlyReturnSchedule : List Party :=
  [.encoder 0, .encoder 0, .caller, .caller, .caller, .encoder 0, .encoder 0]

/-- Whenever the first job fails to encode and a second follows it, the early return
sends on the closed `results` channel, whatever the number of encoders. -/
theorem panics_after_early_return {k₁ k₂ : StorageID} {rest : List StorageID} {numWorkers : Nat}
    (positive : 0 < numWorkers) {err : ε} (failed : (encode k₁).err = some err) :
    ∃ s, runSchedule encode (k₁ :: k₂ :: rest).length (start (k₁ :: k₂ :: rest) numWorkers) earlyReturnSchedule =
      some s ∧ s.resultsClosed = true ∧ s.panicked = true := by
  obtain ⟨n, rfl⟩ : ∃ n, numWorkers = n + 1 := ⟨numWorkers - 1, by omega⟩
  simp only [runSchedule, earlyReturnSchedule, step, start, List.replicate_succ, List.getElem?_cons_zero,
    List.set_cons_zero, Option.some_bind, Bool.false_eq_true, if_false, if_true, List.length_cons,
    List.length_nil, List.nil_append, failed, Nat.zero_ne_add_one, List.length_singleton]
  exact ⟨_, rfl, rfl, rfl⟩

end FastCommitSystem

namespace PersistentSlabStorage

variable {σ ε S : Type} (B : BaseStorage σ ε) (codec : Codec ε S)

/-- Total correctness of `FastCommit` against `Commit`: with at least one encoder and
every owned slab encoding to non-empty bytes, no interleaving of the goroutines takes
more than `4n + w + 4` steps, some interleaving goes on until no goroutine can step,
and every one that does ends with the caller returned, no send on a closed channel,
and the base-store calls and the state of `Commit`. -/
theorem fastCommit_goroutines_eq_commit (s : PersistentSlabStorage σ S) {numWorkers : Nat} (positive : 0 < numWorkers)
    (encodes : ∀ id ∈ sortedOwnedDeltaKeys s.deltas.keys, ∀ slab, s.deltas.get id = some slab →
      ∃ data, codec.encode slab = .ok data ∧ data ≠ []) :
    (∀ {schedule : List Party} {system : FastCommitSystem ε},
      FastCommitSystem.runSchedule (encodeJob codec s.deltas) (sortedOwnedDeltaKeys s.deltas.keys).length
          (FastCommitSystem.start (sortedOwnedDeltaKeys s.deltas.keys) numWorkers) schedule = some system →
        schedule.length ≤ 4 * (sortedOwnedDeltaKeys s.deltas.keys).length + numWorkers + 4 ∧
        ((∀ party, FastCommitSystem.step (encodeJob codec s.deltas) (sortedOwnedDeltaKeys s.deltas.keys).length
            system party = none) →
          system.caller = .returned ∧ system.panicked = false ∧ fastCommit B s system.received = commit B codec s)) ∧
      ∃ schedule system,
        FastCommitSystem.runSchedule (encodeJob codec s.deltas) (sortedOwnedDeltaKeys s.deltas.keys).length
          (FastCommitSystem.start (sortedOwnedDeltaKeys s.deltas.keys) numWorkers) schedule = some system ∧
        ∀ party, FastCommitSystem.step (encodeJob codec s.deltas) (sortedOwnedDeltaKeys s.deltas.keys).length
          system party = none := by
  have noError := fun id owned => encodeJob_err_eq_none codec (encodes id owned)
  refine ⟨@fun schedule system ran => ⟨FastCommitSystem.runSchedule_start_length_le ran, fun stuck => ?_⟩,
    FastCommitSystem.exists_stuck_run _⟩
  obtain ⟨returned, running, delivered⟩ := FastCommitSystem.finished_received_perm noError positive ran stuck
  exact ⟨returned, running, fastCommit_eq_commit B codec s _ delivered encodes⟩

/-- One encoder takes and delivers each job of `pendingWrites` in turn, the caller
receives each, leaves its loop and closes both channels, and the encoder exits. -/
def inTurnSchedule : List Party :=
  [.encoder 0, .encoder 0, .caller, .encoder 0, .encoder 0, .caller, .caller, .caller, .caller, .encoder 0]

theorem fastCommit_goroutines_eq_commit_of_pendingWrites :
    0 < 1 ∧
      (∀ id ∈ sortedOwnedDeltaKeys pendingWrites.deltas.keys, ∀ slab, pendingWrites.deltas.get id = some slab →
        ∃ data, unitCodec.encode slab = .ok data ∧ data ≠ []) ∧
      ∃ system, FastCommitSystem.runSchedule (encodeJob unitCodec pendingWrites.deltas)
          (sortedOwnedDeltaKeys pendingWrites.deltas.keys).length
          (FastCommitSystem.start (sortedOwnedDeltaKeys pendingWrites.deltas.keys) 1) inTurnSchedule = some system ∧
        system.caller = .returned ∧ system.panicked = false ∧
        fastCommit InMemBaseStorage.reliable pendingWrites system.received =
          commit InMemBaseStorage.reliable unitCodec pendingWrites := by
  have encodes : ∀ id ∈ sortedOwnedDeltaKeys pendingWrites.deltas.keys, ∀ slab, pendingWrites.deltas.get id = some slab →
      ∃ data, unitCodec.encode slab = .ok data ∧ data ≠ [] := fun _ _ _ _ => ⟨[0], rfl, List.cons_ne_nil _ _⟩
  obtain ⟨system, ran⟩ : ∃ system, FastCommitSystem.runSchedule (encodeJob unitCodec pendingWrites.deltas)
      (sortedOwnedDeltaKeys pendingWrites.deltas.keys).length
      (FastCommitSystem.start (sortedOwnedDeltaKeys pendingWrites.deltas.keys) 1) inTurnSchedule = some system :=
    ⟨_, rfl⟩
  have stuck : ∀ party, FastCommitSystem.step (encodeJob unitCodec pendingWrites.deltas)
      (sortedOwnedDeltaKeys pendingWrites.deltas.keys).length system party = none := by
    obtain rfl := Option.some.inj (ran.symm.trans rfl)
    intro party
    cases party with
    | caller => rfl
    | encoder i => cases i <;> rfl
  exact ⟨Nat.one_pos, encodes, system, ran,
    ((fastCommit_goroutines_eq_commit InMemBaseStorage.reliable unitCodec pendingWrites Nat.one_pos encodes).1 ran).2 stuck⟩

/-- Every interleaving of the goroutines that goes on until none can step, every
owned slab encoding without error, delivers its results in one of the orders
`arrivalsAt` picks: the call `StorageOp.fastCommit` ranges over every such run. -/
theorem exists_arrivalsAt_of_finished (s : PersistentSlabStorage σ S) {numWorkers : Nat} (positive : 0 < numWorkers)
    (encodes : ∀ id ∈ sortedOwnedDeltaKeys s.deltas.keys, ∀ slab, s.deltas.get id = some slab →
      ∃ data, codec.encode slab = .ok data ∧ data ≠ []) {schedule : List Party} {system : FastCommitSystem ε}
    (ran : FastCommitSystem.runSchedule (encodeJob codec s.deltas) (sortedOwnedDeltaKeys s.deltas.keys).length
      (FastCommitSystem.start (sortedOwnedDeltaKeys s.deltas.keys) numWorkers) schedule = some system)
    (stuck : ∀ party, FastCommitSystem.step (encodeJob codec s.deltas) (sortedOwnedDeltaKeys s.deltas.keys).length
      system party = none) :
    ∃ choice, arrivalsAt codec s choice = system.received :=
  exists_arrivalsAt codec (FastCommitSystem.finished_received_perm
    (fun id owned => encodeJob_err_eq_none codec (encodes id owned)) positive ran stuck).2.2

/-- A codec whose `Encode` always fails. -/
def failingCodec : Codec Unit Unit := ⟨fun _ => .error (), fun _ _ => .error ()⟩

/-- `FastCommit(1)` over `pendingWrites` with a failing `Encode` reaches a send on the
closed `results` channel. -/
theorem fastCommit_sends_on_closed_results :
    ∃ s, FastCommitSystem.Reachable (encodeJob failingCodec pendingWrites.deltas)
      (sortedOwnedDeltaKeys pendingWrites.deltas.keys) 1 s ∧ s.resultsClosed = true ∧ s.panicked = true := by
  obtain ⟨s, ran, closed, panicked⟩ : ∃ s, FastCommitSystem.runSchedule (encodeJob failingCodec pendingWrites.deltas)
      (sortedOwnedDeltaKeys pendingWrites.deltas.keys).length
      (FastCommitSystem.start (sortedOwnedDeltaKeys pendingWrites.deltas.keys) 1) FastCommitSystem.earlyReturnSchedule =
        some s ∧
      s.resultsClosed = true ∧ s.panicked = true := ⟨_, rfl, rfl, rfl⟩
  exact ⟨s, FastCommitSystem.reachable_of_runSchedule _ .start ran, closed, panicked⟩

/-- Whenever the first owned delta in the commit order fails to encode and another
follows it, some interleaving of `FastCommit` with any number of encoders sends on the
closed `results` channel. -/
theorem fastCommit_can_send_on_closed_results (s : PersistentSlabStorage σ S) {numWorkers : Nat}
    (positive : 0 < numWorkers) {k₁ k₂ : StorageID} {rest : List StorageID}
    (sorted : sortedOwnedDeltaKeys s.deltas.keys = k₁ :: k₂ :: rest) {slab : S} {err : ε}
    (found : s.deltas.get k₁ = some slab) (failed : codec.encode slab = .error err) :
    ∃ system, FastCommitSystem.Reachable (encodeJob codec s.deltas) (sortedOwnedDeltaKeys s.deltas.keys) numWorkers
      system ∧ system.resultsClosed = true ∧ system.panicked = true := by
  rw [sorted]
  have jobFails : (encodeJob codec s.deltas k₁).err = some err := by simp [encodeJob, found, failed]
  obtain ⟨system, ran, closed, panicked⟩ := FastCommitSystem.panics_after_early_return positive jobFails
  exact ⟨system, FastCommitSystem.reachable_of_runSchedule _ .start ran, closed, panicked⟩

theorem fastCommit_can_send_on_closed_results_of_failingCodec :
    sortedOwnedDeltaKeys pendingWrites.deltas.keys = [ownedID, nextOwnedID] ∧
      pendingWrites.deltas.get ownedID = some () ∧ failingCodec.encode () = .error () ∧
      ∃ system, FastCommitSystem.Reachable (encodeJob failingCodec pendingWrites.deltas)
        (sortedOwnedDeltaKeys pendingWrites.deltas.keys) 2 system ∧ system.resultsClosed = true ∧
        system.panicked = true := by
  have sorted : sortedOwnedDeltaKeys pendingWrites.deltas.keys = [ownedID, nextOwnedID] := by decide
  have found : pendingWrites.deltas.get ownedID = some () := by decide
  exact ⟨sorted, found, rfl,
    fastCommit_can_send_on_closed_results failingCodec pendingWrites (by decide) sorted found rfl⟩

end PersistentSlabStorage

end Atree
