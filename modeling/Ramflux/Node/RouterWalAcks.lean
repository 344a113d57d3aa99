import Ramflux.Node.RouterWalSync
import Ramflux.Node.RouterWalRuns

/-! Requests of the router log succeed only after a sync that began behind their record. -/
namespace Ramflux.RouterWal
open List Phase

def Location.stop (location : Location) : ℕ := location.offset + (8 + location.len)

/-- A sync of the record's file has succeeded that began after the record was written. -/
def Durable (trace : List IoEvent) (reply : Reply) : Prop :=
  ∃ before since after, trace = before ++ .synced reply.location.segmentId since :: after ∧
    since ≤ before.length ∧ IoEvent.wrote reply.request reply.location ∈ before.take since

/-- A record is written, and durable unless its file is among those still to be synced. -/
def Waiting (trace : List IoEvent) (files : List ℕ) (reply : Reply) : Prop :=
  .wrote reply.request reply.location ∈ trace ∧
    (Durable trace reply ∨ reply.location.segmentId ∈ files)

/-- The same, where the record was written before a sync began that still runs. -/
def WaitingSince (trace : List IoEvent) (since : ℕ) (files : List ℕ) (reply : Reply) : Prop :=
  since ≤ trace.length ∧ .wrote reply.request reply.location ∈ trace.take since ∧
    (Durable trace reply ∨ reply.location.segmentId ∈ files)

section
variable {trace : List IoEvent} {files files' : List ℕ} {reply : Reply} {since file : ℕ}

theorem Durable.append (h : Durable trace reply) (more : List IoEvent) :
    Durable (trace ++ more) reply := by
  obtain ⟨before, since, after, rfl, hsince, hwrote⟩ := h
  exact ⟨before, since, after ++ more, by simp, hsince, hwrote⟩

theorem Waiting.append (h : Waiting trace files reply) (more : List IoEvent) :
    Waiting (trace ++ more) files reply :=
  ⟨mem_append_left _ h.1, h.2.imp (fun hd => hd.append more) id⟩

theorem WaitingSince.append (h : WaitingSince trace since files reply) (more : List IoEvent) :
    WaitingSince (trace ++ more) since files reply := by
  obtain ⟨hsince, hwrote, hfile⟩ := h
  refine ⟨?_, ?_, hfile.imp (fun hd => hd.append more) id⟩
  · rw [length_append]
    omega
  · rwa [take_append_of_le_length hsince]

theorem Waiting.mono (h : Waiting trace files reply) (hfiles : ∀ f ∈ files, f ∈ files') :
    Waiting trace files' reply :=
  ⟨h.1, h.2.imp id fun hf => hfiles _ hf⟩

theorem Waiting.beginSync (h : Waiting trace files reply) :
    WaitingSince trace trace.length files reply := by
  refine ⟨le_rfl, ?_, h.2⟩
  rw [take_length]
  exact h.1

theorem WaitingSince.synced (h : WaitingSince trace since (file :: files) reply) :
    Waiting (trace ++ [.synced file since]) files reply := by
  obtain ⟨hsince, hwrote, hfile⟩ := h
  refine ⟨mem_append_left _ (mem_of_mem_take hwrote), ?_⟩
  rcases hfile with hd | hfile
  · exact .inl (hd.append _)
  · rcases mem_cons.mp hfile with hfile | hfile
    · left
      exact ⟨trace, since, [], by rw [hfile], hsince, hwrote⟩
    · exact .inr hfile

theorem Waiting.durable (h : Waiting trace [] reply) : Durable trace reply := by
  rcases h.2 with hd | hfile
  · exact hd
  · cases hfile

end

/-- One record lies in front of another, in an older file or further up in the same one. -/
def Location.Before (a b : Location) : Prop :=
  a.segmentId < b.segmentId ∨ a.segmentId = b.segmentId ∧ a.stop ≤ b.offset

/-- What an event means for the events before it. -/
def EventOk (before : List IoEvent) : IoEvent → Prop
  | .begun _ location => ∀ request' location', .begun request' location' ∈ before →
      .wrote request' location' ∈ before ∧ location'.Before location
  | .wrote request location => .begun request location ∈ before
  | .synced _ since => since ≤ before.length
  | .acked request location => Durable before ⟨request, location⟩
  | .refused _ => True

/-- The record whose bytes are being written. -/
def Phase.Open (w : Writer) (request : Request) (location : Location) : Phase → Prop
  | .writing batch encoded => batch.todo.head? = some request ∧
      location = ⟨w.segmentId, w.offset, encoded.length⟩
  | _ => False

def Phase.Halted : Phase → Prop
  | .stopped | .torn _ => True
  | _ => False

/-- Records are written one after the other, and none is begun behind an unfinished one. -/
def RecordsOk (trace : List IoEvent) (w : Writer) (phase : Phase) : Prop :=
  ¬phase.Halted → ∀ request location, .begun request location ∈ trace →
    (.wrote request location ∈ trace ∧ location.Before ⟨w.segmentId, w.offset, 0⟩) ∨
      phase.Open w request location

def scope (pipeline : Bool) (w : Writer) (batch : Batch) : List ℕ :=
  if pipeline then batch.files else [w.segmentId]

def PhaseOk (trace : List IoEvent) (pipeline : Bool) (w : Writer) : Phase → Prop
  | .idle | .stopped | .torn _ => True
  | .next batch => ∀ reply ∈ batch.done, Waiting trace (scope pipeline w batch) reply
  | .leave batch _ since => pipeline = false ∧ since ≤ trace.length ∧
      ∀ reply ∈ batch.done, WaitingSince trace since [w.segmentId] reply
  | .roll batch _ => ∀ reply ∈ batch.done, Waiting trace (if pipeline then batch.files else []) reply
  | .header batch _ since => since ≤ trace.length ∧
      ∀ reply ∈ batch.done, Waiting trace (if pipeline then batch.files else []) reply
  | .write batch _ => w.segmentId ∈ scope pipeline w batch ∧
      ∀ reply ∈ batch.done, Waiting trace (scope pipeline w batch) reply
  | .writing batch encoded => w.segmentId ∈ scope pipeline w batch ∧
      (∀ request ∈ batch.todo.head?, .begun request ⟨w.segmentId, w.offset, encoded.length⟩ ∈ trace) ∧
      ∀ reply ∈ batch.done, Waiting trace (scope pipeline w batch) reply
  | .sync batch since => since ≤ trace.length ∧
      ∀ reply ∈ batch.done, WaitingSince trace since [w.segmentId] reply
  | .index replies | .reply replies => ∀ reply ∈ replies, Durable trace reply

def SyncerOk (trace : List IoEvent) : SyncPhase → Prop
  | .idle | .stopped => True
  | .sync groups files => ∀ group ∈ groups, ∀ reply ∈ group.done, Waiting trace files reply
  | .syncing groups file files since => since ≤ trace.length ∧
      ∀ group ∈ groups, ∀ reply ∈ group.done, WaitingSince trace since (file :: files) reply
  | .index groups => ∀ group ∈ groups, ∀ reply ∈ group.done, Durable trace reply
  | .reply replies groups => (∀ reply ∈ replies, Durable trace reply) ∧
      ∀ group ∈ groups, ∀ reply ∈ group.done, Durable trace reply

structure ThreadInv (s : Sys) : Prop where
  history : History EventOk s.trace
  records : RecordsOk s.trace s.writer s.phase
  phase : PhaseOk s.trace s.pipeline s.writer s.phase
  queue : ∀ group ∈ s.queue, ∀ reply ∈ group.done, Waiting s.trace group.files reply
  syncer : SyncerOk s.trace s.syncer

variable {rest : List Request} {more : List IoEvent} (requests : List Request)

section
variable {trace : List IoEvent} {pipeline : Bool} {w : Writer} {phase phase' : Phase}
  {syncer : SyncPhase}

theorem PhaseOk.append (h : PhaseOk trace pipeline w phase) (more : List IoEvent) :
    PhaseOk (trace ++ more) pipeline w phase := by
  cases phase with
  | idle | stopped | torn batch => trivial
  | next batch | roll batch encoded | index replies | reply replies =>
    exact fun reply hr => (h reply hr).append more
  | leave batch encoded since =>
    refine ⟨h.1, ?_, fun reply hr => (h.2.2 reply hr).append more⟩
    rw [length_append]
    exact le_trans h.2.1 (Nat.le_add_right _ _)
  | header batch encoded since | sync batch since =>
    refine ⟨?_, fun reply hr => (h.2 reply hr).append more⟩
    rw [length_append]
    exact le_trans h.1 (Nat.le_add_right _ _)
  | write batch encoded => exact ⟨h.1, fun reply hr => (h.2 reply hr).append more⟩
  | writing batch encoded =>
    exact ⟨h.1, fun request hr => mem_append_left _ (h.2.1 request hr),
      fun reply hr => (h.2.2 reply hr).append more⟩

theorem SyncerOk.append (h : SyncerOk trace syncer) (more : List IoEvent) :
    SyncerOk (trace ++ more) syncer := by
  cases syncer with
  | idle | stopped => trivial
  | sync groups files | index groups => exact fun group hg reply hr => (h group hg reply hr).append more
  | syncing groups file files since =>
    refine ⟨?_, fun group hg reply hr => (h.2 group hg reply hr).append more⟩
    rw [length_append]
    exact le_trans h.1 (Nat.le_add_right _ _)
  | reply replies groups =>
    exact ⟨fun reply hr => (h.1 reply hr).append more,
      fun group hg reply hr => (h.2 group hg reply hr).append more⟩

/-- Events other than the beginning of a record leave the order of records alone. -/
theorem RecordsOk.append (h : RecordsOk trace w phase)
    (hmore : ∀ request location, .begun request location ∉ more) :
    RecordsOk (trace ++ more) w phase := by
  intro hhalted request location hbegun
  rcases mem_append.mp hbegun with hbegun | hbegun
  · rcases h hhalted request location hbegun with ⟨hwrote, hbefore⟩ | hopen
    · exact .inl ⟨mem_append_left _ hwrote, hbefore⟩
    · exact .inr hopen
  · exact absurd hbegun (hmore request location)

theorem RecordsOk.move (h : RecordsOk trace w phase) (hhalted : ¬phase.Halted)
    (hopen : ∀ request location, ¬phase.Open w request location) (phase' : Phase) :
    RecordsOk trace w phase' := by
  intro _ request location hbegun
  rcases h hhalted request location hbegun with hdone | h
  · exact .inl hdone
  · exact absurd h (hopen request location)

theorem recordsOk_of_halted (h : phase.Halted) : RecordsOk trace w phase := fun hnot => absurd h hnot

theorem begun_notMem_refusals (request : Request) (location : Location) :
    IoEvent.begun request location ∉ refusals requests := by
  simp [refusals]

theorem eventOk_refusals : ∀ event ∈ refusals requests, ∀ before, EventOk before event := by
  intro event hevent before
  obtain ⟨request, -, rfl⟩ := mem_map.mp hevent
  trivial

end

variable {f : ℕ} {batch : Batch} {segments : List Segment} {encoded : Bytes} {request : Request}
  {location : Location}

theorem mem_pushUniqueRouterWalFile {files : List ℕ} {file : ℕ} :
    f ∈ pushUniqueRouterWalFile files file ↔ f ∈ files ∨ f = file := by
  unfold pushUniqueRouterWalFile
  split_ifs with h
  · have hfile : file ∈ files := by simpa using h
    constructor
    · exact .inl
    · rintro (hf | rfl)
      · exact hf
      · exact hfile
  · simp

theorem mem_foldl_pushUnique {files more : List ℕ} :
    f ∈ more.foldl pushUniqueRouterWalFile files ↔ f ∈ files ∨ f ∈ more := by
  induction more generalizing files with
  | nil => simp
  | cons file more ih =>
    rw [foldl_cons, ih, mem_pushUniqueRouterWalFile, mem_cons, or_assoc]

theorem mem_collectFiles {groups : List Batch} {group : Batch} (hgroup : group ∈ groups)
    (hf : f ∈ group.files) : f ∈ collectFiles groups := by
  have hfold : ∀ (groups : List Batch) (files : List ℕ),
      f ∈ files ∨ (∃ group ∈ groups, f ∈ group.files) →
      f ∈ groups.foldl (fun files group => group.files.foldl pushUniqueRouterWalFile files) files := by
    intro groups
    induction groups with
    | nil =>
      rintro files (hf | ⟨group, hgroup, -⟩)
      · exact hf
      · cases hgroup
    | cons g groups ih =>
      rintro files hf
      apply ih
      rw [mem_foldl_pushUnique]
      rcases hf with hf | ⟨group, hgroup, hf⟩
      · exact .inl (.inl hf)
      · rcases mem_cons.mp hgroup with rfl | hgroup
        · exact .inl (.inr hf)
        · exact .inr ⟨group, hgroup, hf⟩
  exact hfold groups [] (.inr ⟨group, hgroup, hf⟩)

/-- Listing the writer's file puts it into the scope of the batch and drops nothing. -/
theorem scope_listFile (s : Sys) (batch : Batch) :
    s.writer.segmentId ∈ scope s.pipeline s.writer (s.listFile batch) ∧
      (s.listFile batch).done = batch.done ∧
      ∀ f ∈ scope s.pipeline s.writer batch, f ∈ scope s.pipeline s.writer (s.listFile batch) := by
  unfold scope Sys.listFile
  cases s.pipeline with
  | false => simp
  | true =>
    refine ⟨?_, rfl, ?_⟩
    · exact mem_pushUniqueRouterWalFile.mpr (.inr rfl)
    · exact fun f hf => mem_pushUniqueRouterWalFile.mpr (.inl hf)

theorem mem_scope_of_mem {pipeline : Bool} {w : Writer}
    (hf : f ∈ if pipeline then batch.files else []) : f ∈ scope pipeline w batch := by
  cases pipeline with
  | false => cases hf
  | true => exact hf

variable {codec : Codec} {s t : Sys}

section
variable (h : ThreadInv s)
include h

/-- Steps that only show events of the sync thread or of callers keep the writer's part. -/
theorem ThreadInv.show (hmore : History EventOk (s.trace ++ more))
    (hbegun : ∀ request location, IoEvent.begun request location ∉ more) {fenced : Bool}
    {syncer : SyncPhase} (hsyncer : SyncerOk (s.trace ++ more) syncer) :
    ThreadInv { s with trace := s.trace ++ more, fenced := fenced, syncer := syncer } where
  history := hmore
  records := h.records.append hbegun
  phase := h.phase.append more
  queue := fun group hg reply hr => (h.queue group hg reply hr).append more
  syncer := hsyncer

theorem ThreadInv.advance {before phase : Phase} (hp : s.phase = before)
    (hphase : PhaseOk s.trace s.pipeline s.writer phase) (hhalted : ¬before.Halted := by simp [Halted])
    (hopen : ∀ request location, ¬before.Open s.writer request location := by simp [Open]) :
    ThreadInv { s with phase := phase, segments := segments } where
  history := h.history
  records := h.records.move (hp ▸ hhalted) (hp ▸ hopen) phase
  phase := hphase
  queue := h.queue
  syncer := h.syncer

theorem ThreadInv.advanceWith {before phase : Phase} (hp : s.phase = before) {event : IoEvent}
    (hevent : EventOk s.trace event) (hphase : PhaseOk (s.trace ++ [event]) s.pipeline s.writer phase)
    (hbegun : ∀ request location, .begun request location ∉ [event] := by simp)
    (hhalted : ¬before.Halted := by simp [Halted])
    (hopen : ∀ request location, ¬before.Open s.writer request location := by simp [Open]) :
    ThreadInv { s with trace := s.trace ++ [event], phase := phase } where
  history := h.history.concat hevent
  records := (h.records.move (hp ▸ hhalted) (hp ▸ hopen) phase).append hbegun
  phase := hphase
  queue := fun group hg reply hr => (h.queue group hg reply hr).append _
  syncer := h.syncer.append _

theorem ThreadInv.fail (requests : List Request) (poisoned : Bool) :
    ThreadInv { s with
      fenced := true
      poisoned := poisoned
      trace := s.trace ++ refusals requests
      phase := .stopped } where
  history := h.history.append (eventOk_refusals requests)
  records := recordsOk_of_halted trivial
  phase := trivial
  queue := fun group hg reply hr => (h.queue group hg reply hr).append _
  syncer := h.syncer.append _

theorem ThreadInv.rolled {since : ℕ} (hphase : s.phase = .header batch encoded since) :
    ThreadInv { s with
      trace := s.trace ++ [.synced (s.writer.segmentId + 1) since]
      writer := (s.writer.rollSegment s.segments).1
      phase := .write ({ s with writer := (s.writer.rollSegment s.segments).1 }.listFile batch)
        encoded } := by
  have hok := h.phase
  rw [hphase] at hok
  obtain ⟨hsince, hwaiting⟩ := hok
  obtain ⟨hlisted, hdone, hscope⟩ :=
    scope_listFile { s with writer := (s.writer.rollSegment s.segments).1 } batch
  constructor
  · exact h.history.concat hsince
  · -- Every record so far is in an older file.
    intro _ request location hbegun
    left
    have hbegun : .begun request location ∈ s.trace := by simpa using hbegun
    rcases h.records (by simp [hphase, Halted]) request location hbegun with ⟨hwrote, hbefore⟩ | hopen
    · refine ⟨mem_append_left _ hwrote, .inl ?_⟩
      rcases hbefore with hlt | ⟨heq, -⟩
      · exact Nat.lt_succ_of_lt hlt
      · exact Nat.lt_succ_of_le heq.le
    · rw [hphase] at hopen
      exact hopen.elim
  · refine ⟨hlisted, ?_⟩
    intro reply hr
    rw [hdone] at hr
    exact ((hwaiting reply hr).append _).mono fun f hf => hscope f (mem_scope_of_mem hf)
  · exact fun group hg reply hr => (h.queue group hg reply hr).append _
  · exact h.syncer.append _

theorem ThreadInv.beginRecord (hphase : s.phase = .write batch encoded)
    (htodo : batch.todo = request :: rest) :
    ThreadInv { s with
      trace := s.trace ++ [.begun request (s.place encoded)]
      phase := .writing batch encoded } := by
  have hok := h.phase
  rw [hphase] at hok
  have hall : ∀ request' location', .begun request' location' ∈ s.trace →
      .wrote request' location' ∈ s.trace ∧
        location'.Before ⟨s.writer.segmentId, s.writer.offset, 0⟩ := by
    intro request' location' hbegun
    rcases h.records (by simp [hphase, Halted]) request' location' hbegun with hdone | hopen
    · exact hdone
    · rw [hphase] at hopen
      exact hopen.elim
  constructor
  · exact h.history.concat hall
  · intro _ request' location' hbegun
    rcases mem_append.mp hbegun with hbegun | hbegun
    · obtain ⟨hwrote, hbefore⟩ := hall request' location' hbegun
      exact .inl ⟨mem_append_left _ hwrote, hbefore⟩
    · obtain ⟨rfl, rfl⟩ : request' = request ∧ location' = s.place encoded := by simpa using hbegun
      right
      exact ⟨by rw [htodo]; rfl, rfl⟩
  · refine ⟨hok.1, ?_, fun reply hr => (hok.2 reply hr).append _⟩
    intro request' hr
    obtain rfl : request = request' := by simpa [htodo] using hr
    exact mem_append_right _ (by simp [Sys.place])
  · exact fun group hg reply hr => (h.queue group hg reply hr).append _
  · exact h.syncer.append _

end

theorem writeRecord_ok {w w' : Writer} {segments' : List Segment}
    (h : w.writeRecord encoded segments = .ok (location, w', segments')) :
    location = ⟨w.segmentId, w.offset, encoded.length⟩ ∧ w'.segmentId = w.segmentId ∧
      w'.offset = location.stop := by
  unfold Writer.writeRecord at h
  split_ifs at h
  obtain ⟨rfl, rfl, -⟩ : _ = location ∧ _ = w' ∧ _ = segments' := by simpa using h
  exact ⟨rfl, rfl, rfl⟩

theorem ThreadInv.writeRecord (h : ThreadInv s) {writer : Writer}
    (hphase : s.phase = .writing batch encoded) (htodo : batch.todo = request :: rest)
    (hwrite : s.writer.writeRecord encoded s.segments = .ok (location, writer, segments)) :
    ThreadInv { s with
      trace := s.trace ++ [.wrote request location]
      writer := writer
      segments := segments
      phase := .next { batch with todo := rest, done := batch.done ++ [⟨request, location⟩] } } := by
  obtain ⟨hloc, hid, hoffset⟩ := writeRecord_ok hwrite
  have hok := h.phase
  rw [hphase] at hok
  obtain ⟨hlisted, hbegun, hwaiting⟩ := hok
  have hbegun : .begun request location ∈ s.trace := by
    rw [hloc]
    exact hbegun request (by simp [htodo])
  have hscope : scope s.pipeline writer
      { batch with todo := rest, done := batch.done ++ [⟨request, location⟩] } =
      scope s.pipeline s.writer batch := by
    unfold scope
    rw [hid]
  constructor
  · exact h.history.concat hbegun
  · intro _ request' location' hbegun'
    left
    have hbegun' : .begun request' location' ∈ s.trace := by simpa using hbegun'
    rcases h.records (by simp [hphase, Halted]) request' location' hbegun' with ⟨hwrote, hbefore⟩ | hopen
    · refine ⟨mem_append_left _ hwrote, ?_⟩
      rw [hid, hoffset, hloc]
      refine hbefore.imp id fun hsame => ⟨hsame.1, le_trans hsame.2 ?_⟩
      exact Nat.le_add_right _ _
    · -- The open record is the one that was just completed.
      rw [hphase] at hopen
      obtain ⟨hhead, rfl⟩ := hopen
      obtain rfl : request = request' := by simpa [htodo] using hhead
      rw [← hloc]
      refine ⟨by simp, .inr ⟨?_, ?_⟩⟩
      · rw [hid, hloc]
      · exact hoffset.ge
  · intro reply hr
    rw [hscope]
    rcases mem_append.mp hr with hr | hr
    · exact (hwaiting reply hr).append _
    · rw [mem_singleton.mp hr]
      refine ⟨by simp, .inr ?_⟩
      rw [hloc]
      exact hlisted
  · exact fun group hg reply hr => (h.queue group hg reply hr).append _
  · exact h.syncer.append _

theorem ThreadInv.step (h : ThreadInv s) (hstep : ThreadStep codec s t) : ThreadInv t := by
  have hphase := h.phase
  have hsyncer := h.syncer
  cases hstep with
  | fence => exact ⟨h.history, h.records, h.phase, h.queue, h.syncer⟩
  | start requests hp _ =>
    exact h.advance hp (by simp [PhaseOk])
  | close hp | tearRecord n hp | abandon hp =>
    exact ⟨h.history, recordsOk_of_halted trivial, trivial, h.queue, h.syncer⟩
  | @leaveSegment batch request rest encoded aged hp =>
    rw [hp] at hphase
    apply h.advance hp
    cases hpipe : s.pipeline with
    | false =>
      refine ⟨rfl, le_rfl, fun reply hr => ?_⟩
      have hwaiting := hphase reply hr
      rw [hpipe] at hwaiting
      exact hwaiting.beginSync
    | true =>
      intro reply hr
      have hwaiting := hphase reply hr
      rw [hpipe] at hwaiting
      exact hwaiting
  | @keepSegment batch request rest encoded aged hp =>
    rw [hp] at hphase
    apply h.advance hp
    obtain ⟨hlisted, hdone, hscope⟩ := scope_listFile s batch
    refine ⟨hlisted, fun reply hr => ?_⟩
    rw [hdone] at hr
    exact (hphase reply hr).mono hscope
  | @left batch encoded since hp =>
    rw [hp] at hphase
    obtain ⟨hpipe, hsince, hwaiting⟩ := hphase
    have hevent : EventOk s.trace (.synced s.writer.segmentId since) := hsince
    apply h.advanceWith hp hevent
    intro reply hr
    rw [hpipe]
    exact (hwaiting reply hr).synced
  | @openSegment batch encoded hp =>
    rw [hp] at hphase
    exact h.advance hp ⟨le_rfl, hphase⟩
  | rolled hp => exact h.rolled hp
  | beginRecord hp htodo => exact h.beginRecord hp htodo
  | writeRecord hp htodo _ hwrite => exact h.writeRecord hp htodo hwrite
  | @beginSync batch hp htodo hpipe =>
    rw [hp] at hphase
    refine h.advance hp ⟨le_rfl, fun reply hr => ?_⟩
    have hwaiting := hphase reply hr
    rw [hpipe] at hwaiting
    exact hwaiting.beginSync
  | @endSync batch since hp =>
    rw [hp] at hphase
    exact h.advanceWith hp hphase.1
      fun reply hr => (hphase.2 reply hr).synced.durable
  | @enqueue batch hp htodo hpipe =>
    rw [hp] at hphase
    have hrecs : RecordsOk s.trace s.writer .idle :=
      h.records.move (by simp [hp, Halted]) (by simp [hp, Open]) .idle
    refine ⟨h.history, hrecs, trivial, ?_, h.syncer⟩
    intro group hg reply hr
    rcases mem_append.mp hg with hg | hg
    · exact h.queue group hg reply hr
    · rw [mem_singleton.mp hg] at hr ⊢
      have hwaiting := hphase reply hr
      rw [hpipe] at hwaiting
      exact hwaiting
  | @updateIndex replies hp =>
    rw [hp] at hphase
    exact h.advance hp hphase
  | @indexFails replies hp => exact h.fail _ s.poisoned
  | @reply request location rest hp =>
    rw [hp] at hphase
    exact h.advanceWith hp (hphase ⟨request, location⟩ (.head _))
      fun reply hr => (hphase reply (.tail _ hr)).append _
  | replied hp => exact h.advance hp trivial
  | fail poisoned hp => exact h.fail _ _
  | @take groups rest hs _ hqueue =>
    have hmem : ∀ group, group ∈ groups ∨ group ∈ rest → group ∈ s.queue := by
      intro group hg
      rw [hqueue]
      exact mem_append.mpr hg
    refine ⟨h.history, h.records, h.phase, fun group hg => h.queue group (hmem group (.inr hg)), ?_⟩
    intro group hg reply hr
    exact (h.queue group (hmem group (.inl hg)) reply hr).mono fun f hf => mem_collectFiles hg hf
  | closeSyncer hs | groupsReplied hs | abandonGroups hs =>
    exact ⟨h.history, h.records, h.phase, h.queue, trivial⟩
  | @beginFileSync groups file files hs =>
    rw [hs] at hsyncer
    exact ⟨h.history, h.records, h.phase, h.queue, le_rfl,
      fun group hg reply hr => (hsyncer group hg reply hr).beginSync⟩
  | @endFileSync groups file files since hs =>
    rw [hs] at hsyncer
    have hevent : EventOk s.trace (.synced file since) := hsyncer.1
    exact h.show (h.history.concat hevent) (by simp)
      fun group hg reply hr => (hsyncer.2 group hg reply hr).synced
  | @filesSynced groups hs =>
    rw [hs] at hsyncer
    exact ⟨h.history, h.records, h.phase, h.queue,
      fun group hg reply hr => (hsyncer group hg reply hr).durable⟩
  | syncFails hs => exact h.show (h.history.append (eventOk_refusals _)) (begun_notMem_refusals _) trivial
  | @updateGroupIndex group groups hs =>
    rw [hs] at hsyncer
    exact ⟨h.history, h.records, h.phase, h.queue, fun reply hr => hsyncer group (.head _) reply hr,
      fun other hg => hsyncer other (.tail _ hg)⟩
  | groupIndexFails hs =>
    exact h.show (h.history.append (eventOk_refusals _)) (begun_notMem_refusals _) trivial
  | @groupReply request location rest groups hs =>
    rw [hs] at hsyncer
    obtain ⟨hreplies, hgroups⟩ := hsyncer
    have hevent : EventOk s.trace (.acked request location) := hreplies _ (.head _)
    exact h.show (h.history.concat hevent) (by simp)
      ⟨fun reply hr => (hreplies reply (.tail _ hr)).append _,
        fun group hg reply hr => (hgroups group hg reply hr).append _⟩
  | @groupReplied groups hs =>
    rw [hs] at hsyncer
    exact ⟨h.history, h.records, h.phase, h.queue, hsyncer.2⟩

theorem ThreadInv.of_fresh (h : s.Fresh) : ThreadInv s where
  history := by
    rw [h.trace]
    exact history_nil
  records := by
    intro _ request location hbegun
    rw [h.trace] at hbegun
    cases hbegun
  phase := by
    rw [h.phase]
    trivial
  queue := by simp [h.queue]
  syncer := by
    rw [h.syncer]
    trivial

theorem threadInv_of_reach (hfresh : s.Fresh) (hreach : Relation.ReflTransGen (ThreadStep codec) s t) :
    ThreadInv t := by
  induction hreach with
  | refl => exact .of_fresh hfresh
  | tail _ hlast ih => exact ih.step hlast

/-- Records begun in front of a written one were completed before it was begun. -/
theorem wrote_of_before {trace : List IoEvent} (h : History EventOk trace) {n : ℕ}
    (hwrote : .wrote request location ∈ trace.take n) {request' : Request} {location' : Location}
    (hbegun : .begun request' location' ∈ trace) (hfile : location'.segmentId = location.segmentId)
    (hoffset : location'.offset < location.offset) : .wrote request' location' ∈ trace.take n := by
  obtain ⟨front, back, hsplit⟩ := append_of_mem hwrote
  have htrace : trace = front ++ .wrote request location :: (back ++ trace.drop n) := by
    rw [← cons_append, ← append_assoc, ← hsplit, take_append_drop]
  obtain ⟨earlier, later, rfl⟩ := append_of_mem (h front _ _ htrace)
  rw [append_assoc, cons_append] at htrace
  have hfirst := h earlier _ _ htrace
  have hmem := hbegun
  rw [htrace] at hmem
  -- The other record is begun before this one, or is it, or is begun behind it.
  rcases mem_append.mp hmem with hmem | hmem
  · have hdone := (hfirst request' location' hmem).1
    rw [hsplit]
    exact mem_append_left _ (mem_append_left _ hdone)
  · rcases mem_cons.mp hmem with heq | hmem
    · obtain ⟨-, rfl⟩ : request' = request ∧ location' = location := by simpa using heq
      exact absurd hoffset (lt_irrefl _)
    · obtain ⟨mid, rest, hrest⟩ := append_of_mem hmem
      rw [hrest, ← cons_append, ← append_assoc] at htrace
      obtain ⟨-, hbehind⟩ := h _ _ _ htrace request location (by simp)
      rcases hbehind with hlt | ⟨-, hstop⟩
      · exact absurd hfile hlt.ne'
      · unfold Location.stop at hstop
        omega

/-- A request is answered with success only after a sync of its file that began when its record, and
every earlier one of the file, was completely written. -/
theorem acked_after_sync (hfresh : s.Fresh) (hreach : Relation.ReflTransGen (ThreadStep codec) s t)
    {before after : List IoEvent} {request : Request} {location : Location}
    (hacked : t.trace = before ++ .acked request location :: after) :
    ∃ earlier since later, before = earlier ++ .synced location.segmentId since :: later ∧
      since ≤ earlier.length ∧ .wrote request location ∈ earlier.take since ∧
      ∀ (request' : Request) (location' : Location), .begun request' location' ∈ t.trace →
        location'.segmentId = location.segmentId → location'.offset < location.offset →
        .wrote request' location' ∈ earlier.take since := by
  have hhist := (threadInv_of_reach hfresh hreach).history
  obtain ⟨earlier, since, later, hbefore, hsince, hwrote⟩ := hhist before _ after hacked
  refine ⟨earlier, since, later, hbefore, hsince, hwrote, ?_⟩
  intro request' location' hbegun hfile hoffset
  have htake : t.trace.take since = earlier.take since := by
    rw [hacked, hbefore, append_assoc, take_append_of_le_length hsince]
  rw [← htake] at hwrote ⊢
  exact wrote_of_before hhist hwrote hbegun hfile hoffset

/-- A batch of two requests that spans two segments, on the pipelined path. -/
def pipelined : Sys where
  pipeline := true
  writer := ⟨100, 0, 22, 22, none⟩
  poisoned := false
  segments := [⟨0, routerWalMagic⟩]
  fenced := false
  phase := .idle
  queue := []
  syncer := .idle
  trace := []

def firstRequest : Request := ⟨0, receipt⟩

def secondRequest : Request := ⟨1, delivered⟩

/-- The written batch, with the files of both segments to sync. -/
def spanning : Batch :=
  ⟨[], [⟨firstRequest, ⟨0, 22, 1⟩⟩, ⟨secondRequest, ⟨1, 22, 2⟩⟩], [0, 1]⟩

def pipelinedTrace : List IoEvent :=
  [.begun firstRequest ⟨0, 22, 1⟩, .wrote firstRequest ⟨0, 22, 1⟩, .synced 1 2,
    .begun secondRequest ⟨1, 22, 2⟩, .wrote secondRequest ⟨1, 22, 2⟩, .synced 0 5, .synced 1 6]

theorem exists_reach_pipelined : ∃ t, Relation.ReflTransGen (ThreadStep twoCodec) pipelined t ∧
      t.trace = pipelinedTrace ++ [.acked firstRequest ⟨0, 22, 1⟩] := by
  apply Exists.intro
  constructor
  · exact .head (.start [firstRequest, secondRequest] rfl rfl) <|
      .head (.keepSegment false rfl rfl rfl rfl rfl rfl) <|
      .head (.beginRecord rfl rfl rfl (by decide)) <| .head (.writeRecord rfl rfl rfl rfl) <|
      .head (.leaveSegment true rfl rfl rfl rfl rfl rfl) <| .head (.openSegment rfl rfl) <|
      .head (.rolled rfl rfl) <| .head (.beginRecord rfl rfl rfl (by decide)) <|
      .head (.writeRecord rfl rfl rfl rfl) <| .head (.enqueue rfl rfl rfl rfl) <|
      .head (@ThreadStep.take _ _ [spanning] [] rfl rfl rfl (by simp)) <| .head (.beginFileSync rfl rfl) <|
      .head (.endFileSync rfl rfl) <| .head (.beginFileSync rfl rfl) <|
      .head (.endFileSync rfl rfl) <| .head (.filesSynced rfl rfl) <|
      .head (.updateGroupIndex rfl rfl) <|
      .single (@ThreadStep.groupReply _ _ firstRequest ⟨0, 22, 1⟩ _ _ rfl rfl)
  · rfl

theorem acked_after_sync_pipelined : ∃ t, Relation.ReflTransGen (ThreadStep twoCodec) pipelined t ∧
      t.trace = pipelinedTrace ++ [.acked firstRequest ⟨0, 22, 1⟩] ∧
      ∃ earlier since later, pipelinedTrace = earlier ++ .synced 0 since :: later ∧
        since ≤ earlier.length ∧ .wrote firstRequest ⟨0, 22, 1⟩ ∈ earlier.take since := by
  obtain ⟨t, hreach, htrace⟩ := exists_reach_pipelined
  obtain ⟨earlier, since, later, hbefore, hsince, hwrote, -⟩ :=
    acked_after_sync ⟨rfl, rfl, rfl, rfl⟩ hreach htrace
  exact ⟨t, hreach, htrace, earlier, since, later, hbefore, hsince, hwrote⟩

end Ramflux.RouterWal
