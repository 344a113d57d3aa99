import Ramflux.Protocol.Types
import Ramflux.Lib.Run

/-! Replay guards for signed requests and envelopes, and when a signed request can pass twice. -/
namespace Ramflux

def maxClockSkewSeconds : ℤ := 120

/-- Serialisers and hash outside the repository that replay keys are built with. -/
structure ReplayCodec where
  jsonPair : String → String → Except ProtocolError Bytes
  canonicalTuple : String → String → String → String → Except ProtocolError Bytes
  blake3 : Bytes → Vector UInt8 32

namespace ReplayCodec
variable (C : ReplayCodec)

def hashBase64url (domainTag : String) (bytes : Bytes) : String :=
  encodeBase64url (C.blake3 (utf8 domainTag ++ bytes)).toList

def qualifiedDeviceId (root device : String) : Except ProtocolError String :=
  if root.isEmpty || 256 < root.utf8ByteSize || device.isEmpty || 1024 < device.utf8ByteSize then
    .error (.invalidIdentityRecord "invalid qualified device address")
  else do
    let bytes ← C.jsonPair root device
    pure ("root~" ++ encodeBase64url bytes)

def replayTupleKey (source : RootQualifiedDeviceRef) (request : SignedRequest) :
    Except ProtocolError String := do
  -- The qualified name is computed only when the bare device name does not match.
  if request.sourceDeviceId ≠ source.deviceId then
    let qualified ← C.qualifiedDeviceId source.rootCommitment source.deviceId
    if request.sourceDeviceId ≠ qualified then
      throw (.invalidIdentityRecord "signed request source identity mismatch")
  let bytes ← C.canonicalTuple source.rootCommitment source.deviceId request.nonce
    request.requestId
  pure ("request/v2/" ++ C.hashBase64url "ramflux.signed_request.replay.v2" bytes)

end ReplayCodec

/-- Expiry and clock-skew checks of a signed request, before any state is touched. -/
def checkRequestTimes (request : SignedRequest) (now : ℤ) : Except ProtocolError Unit :=
  if request.expiresAt < now then .error .signedRequestExpired
  else if wrapI (now + maxClockSkewSeconds) < request.createdAt then
    .error .signedRequestFromFuture
  else if maxEnvelopeTtlSeconds < satSubI request.expiresAt request.createdAt then
    .error .signedRequestExpiryTooLong
  else .ok ()

theorem le_expiresAt_of_checkRequestTimes {request : SignedRequest} {now : ℤ}
    (h : checkRequestTimes request now = .ok ()) : now ≤ request.expiresAt := by
  by_contra hlt
  simp [checkRequestTimes, not_le.mp hlt] at h

abbrev AcceptedKeys := OrdMap String ℤ

def AcceptedKeys.prune (m : AcceptedKeys) (now : ℤ) : AcceptedKeys :=
  m.filter fun _ expiresAt => decide (now ≤ expiresAt)

structure ReplayGuard where
  accepted : AcceptedKeys

namespace ReplayGuard

def new : ReplayGuard := ⟨∅⟩

def prune (g : ReplayGuard) (now : ℤ) : ReplayGuard := ⟨g.accepted.prune now⟩

def checkSignedRequest (C : ReplayCodec) (g : ReplayGuard) (source : RootQualifiedDeviceRef)
    (request : SignedRequest) (now : ℤ) : Except ProtocolError Unit × ReplayGuard :=
  match checkRequestTimes request now with
  | .error e => (.error e, g)
  | .ok () =>
    let g := g.prune now
    match C.replayTupleKey source request with
    | .error e => (.error e, g)
    | .ok key =>
      -- `insert` stores the new expiry even when the key was already there.
      (if key ∈ g.accepted then .error (.replay key) else .ok (),
        ⟨g.accepted.insert key request.expiresAt⟩)

end ReplayGuard

inductive ReplayGuardError
  | replayGuard (text : String)
  | ttlExpired (envelopeId : String)
  deriving DecidableEq

structure NodeReplayGuardState where
  acceptedByKey : AcceptedKeys

section
variable (source : RootQualifiedDeviceRef) (envelope : Envelope)

def envelopeReplayTupleKey : String :=
  "envelope/v3/" ++ source.storageKey ++ "/" ++ encodeBase64url (utf8 envelope.envelopeId) ++ "/" ++
    encodeBase64url (utf8 envelope.target)

/-- Key written for an envelope before targets were part of the tuple. -/
def legacyEnvelopeKey : String :=
  "envelope/v2/" ++ source.storageKey ++ "/" ++ encodeBase64url (utf8 envelope.envelopeId)

def isolatedEnvelopeKey : String :=
  "legacy/replay/" ++ encodeBase64url (utf8 (legacyEnvelopeKey source envelope))

/-- Source binding, lifetime and skew checks of an envelope; returns its expiry. -/
def checkEnvelopeTimes (now : ℤ) : Except ReplayGuardError ℤ :=
  let ttl : ℤ := envelope.ttl.toNat
  let expiresAt := envelope.createdAt + ttl
  if envelope.sourceDeviceId ≠ source.deviceId ∧ envelope.sourceDeviceId ≠ source.storageKey then
    .error (.replayGuard "envelope source identity mismatch")
  else if (envelope.ext["source_root_commitment"]?.bind JsonValue.asStr).any
      (· ≠ source.rootCommitment) then
    .error (.replayGuard "envelope source root mismatch")
  else if maxEnvelopeTtlSeconds < ttl then
    .error (.replayGuard ("envelope ttl exceeds maximum accepted ttl: " ++ envelope.envelopeId))
  else if i64Max < expiresAt then .error (.ttlExpired envelope.envelopeId)
  else if expiresAt < now then .error (.ttlExpired envelope.envelopeId)
  else if wrapI (now + maxClockSkewSeconds) < envelope.createdAt then
    .error (.replayGuard ("envelope created in future: " ++ envelope.envelopeId))
  else .ok expiresAt

end

namespace NodeReplayGuardState

def new : NodeReplayGuardState := ⟨∅⟩

def prune (g : NodeReplayGuardState) (now : ℤ) : NodeReplayGuardState := ⟨g.acceptedByKey.prune now⟩

/-- Time and identity checks run on a throwaway guard, the duplicate check on the map. -/
def checkSignedRequest (C : ReplayCodec) (g : NodeReplayGuardState) (source : RootQualifiedDeviceRef)
    (request : SignedRequest) (now : ℤ) : Except ReplayGuardError Unit × NodeReplayGuardState :=
  match (ReplayGuard.new.checkSignedRequest C source request now).1 with
  | .error e => (.error (.replayGuard e.toText), g)
  | .ok () =>
    let g := g.prune now
    match C.replayTupleKey source request with
    | .error e => (.error (.replayGuard e.toText), g)
    | .ok key =>
      (if key ∈ g.acceptedByKey then .error (.replayGuard ("replay: " ++ key)) else .ok (),
        ⟨g.acceptedByKey.insert key request.expiresAt⟩)

variable (g : NodeReplayGuardState) (source : RootQualifiedDeviceRef) (envelope : Envelope)

def acceptEnvelopeOnce (now : ℤ) : Except ReplayGuardError Bool × NodeReplayGuardState :=
  match checkEnvelopeTimes source envelope now with
  | .error e => (.error e, g)
  | .ok expiresAt =>
    let g := g.prune now
    let key := envelopeReplayTupleKey source envelope
    if key ∈ g.acceptedByKey ∨ legacyEnvelopeKey source envelope ∈ g.acceptedByKey ∨
        isolatedEnvelopeKey source envelope ∈ g.acceptedByKey then
      (.ok false, g)
    else (.ok true, ⟨g.acceptedByKey.insert key expiresAt⟩)

def checkEnvelope (now : ℤ) : Except ReplayGuardError Unit × NodeReplayGuardState :=
  match g.acceptEnvelopeOnce source envelope now with
  | (.error e, g) => (.error e, g)
  | (.ok true, g) => (.ok (), g)
  | (.ok false, g) =>
    (.error (.replayGuard ("replay: " ++ envelopeReplayTupleKey source envelope)), g)

theorem checkEnvelope_state (now : ℤ) :
    (g.checkEnvelope source envelope now).2 = (g.acceptEnvelopeOnce source envelope now).2 := by
  unfold checkEnvelope
  rcases g.acceptEnvelopeOnce source envelope now with ⟨e | b, g'⟩
  · rfl
  · cases b <;> rfl

end NodeReplayGuardState

namespace AcceptedKeys

/-- `item` is guarded at `now`: its expiry has passed, or the key is stored with no earlier one. -/
def Remembers (m : AcceptedKeys) (now : ℤ) (item : String × ℤ) : Prop :=
  item.2 < now ∨ ∃ e, m[item.1]? = some e ∧ item.2 ≤ e

@[simp] theorem getElem?_prune (m : AcceptedKeys) (now : ℤ) (key : String) :
    (m.prune now)[key]? = m[key]?.filter fun e => decide (now ≤ e) := by
  simp [prune]

variable {m : AcceptedKeys} {now : ℤ} {key : String}

theorem mem_prune : key ∈ m.prune now ↔ ∃ e, m[key]? = some e ∧ now ≤ e := by
  rw [Std.ExtTreeMap.mem_iff_isSome_getElem?, getElem?_prune]
  cases m[key]? <;> simp [Option.filter, apply_ite]

variable {item : String × ℤ}

theorem remembers_prune {t : ℤ} (ht : t ≤ now)
    (h : m.Remembers t item) : (m.prune now).Remembers now item := by
  rcases h with h | ⟨e, he, hle⟩
  · exact .inl (by omega)
  · by_cases hlive : now ≤ e
    · exact .inr ⟨e, by simp [he, hlive], hle⟩
    · exact .inl (by omega)

theorem remembers_insert_self (m : AcceptedKeys) (now : ℤ) (item : String × ℤ) :
    Remembers (m.insert item.1 item.2) now item :=
  .inr ⟨item.2, by simp, le_rfl⟩

theorem remembers_insert {expiresAt : ℤ} (hkeep : ∀ e, m[key]? = some e → e ≤ expiresAt)
    (h : m.Remembers now item) : Remembers (m.insert key expiresAt) now item := by
  rcases h with h | ⟨e, he, hle⟩
  · exact .inl h
  · by_cases hk : key = item.1
    · subst hk
      exact .inr ⟨expiresAt, by simp, hle.trans (hkeep e he)⟩
    · exact .inr ⟨e, by rw [OrdMap.getElem?_insert_of_ne _ _ hk, he], hle⟩

theorem mem_of_remembers (h : m.Remembers now item) (hlive : now ≤ item.2) : item.1 ∈ m := by
  rcases h with h | ⟨e, he, -⟩
  · omega
  · rw [Std.ExtTreeMap.mem_iff_isSome_getElem?, he]
    rfl

end AcceptedKeys

structure SignedCheck where
  source : RootQualifiedDeviceRef
  request : SignedRequest
  now : ℤ

def SignedCheck.item (C : ReplayCodec) (c : SignedCheck) : Option (String × ℤ) :=
  (C.replayTupleKey c.source c.request).toOption.map (·, c.request.expiresAt)

/-- The check does not present a shorter expiry under a key that is stored and still live. -/
def SignedCheck.KeepsExpiry (C : ReplayCodec) (m : AcceptedKeys) (c : SignedCheck) : Prop :=
  match checkRequestTimes c.request c.now, C.replayTupleKey c.source c.request with
  | .ok (), .ok key => ∀ e ∈ m[key]?, c.now ≤ e → e ≤ c.request.expiresAt
  | _, _ => True

instance (C : ReplayCodec) (m : AcceptedKeys) (c : SignedCheck) : Decidable (c.KeepsExpiry C m) := by
  unfold SignedCheck.KeepsExpiry
  split <;> infer_instance

/-- Effect of one signed-request check on the key map, the same for both guards. -/
inductive CheckEffect (C : ReplayCodec) (m : AcceptedKeys) (c : SignedCheck) :
    Bool → AcceptedKeys → Prop
  | refused : CheckEffect C m c false m
  | unnamed : CheckEffect C m c false (m.prune c.now)
  | keyed {key : String} (htimes : checkRequestTimes c.request c.now = .ok ())
      (hkey : C.replayTupleKey c.source c.request = .ok key) :
      CheckEffect C m c (decide (key ∉ m.prune c.now))
        ((m.prune c.now).insert key c.request.expiresAt)

section
variable (C : ReplayCodec)

theorem ReplayGuard.checkSignedRequest_effect (g : ReplayGuard) (c : SignedCheck) :
    CheckEffect C g.accepted c (g.checkSignedRequest C c.source c.request c.now).1.isOk
      (g.checkSignedRequest C c.source c.request c.now).2.accepted := by
  unfold checkSignedRequest
  cases ht : checkRequestTimes c.request c.now with
  | error e => exact .refused
  | ok u =>
    cases hk : C.replayTupleKey c.source c.request with
    | error e => exact .unnamed
    | ok key =>
      have hr := CheckEffect.keyed (m := g.accepted) ht hk
      by_cases hmem : key ∈ g.accepted.prune c.now <;>
        simpa [prune, hmem, Except.isOk, Except.toBool] using hr

theorem ReplayGuard.checkSignedRequest_new (source : RootQualifiedDeviceRef)
    (request : SignedRequest) (now : ℤ) :
    (ReplayGuard.new.checkSignedRequest C source request now).1 =
      (do checkRequestTimes request now; let _ ← C.replayTupleKey source request) := by
  unfold checkSignedRequest
  cases checkRequestTimes request now with
  | error e => rfl
  | ok u =>
    cases C.replayTupleKey source request with
    | error e => rfl
    | ok key =>
      have hnew : key ∉ (new.prune now).accepted := by simp [new, prune, AcceptedKeys.mem_prune]
      simp [hnew, Bind.bind, Except.bind, Pure.pure, Except.pure]

theorem NodeReplayGuardState.checkSignedRequest_effect (g : NodeReplayGuardState) (c : SignedCheck) :
    CheckEffect C g.acceptedByKey c (g.checkSignedRequest C c.source c.request c.now).1.isOk
      (g.checkSignedRequest C c.source c.request c.now).2.acceptedByKey := by
  unfold checkSignedRequest
  rw [ReplayGuard.checkSignedRequest_new]
  cases ht : checkRequestTimes c.request c.now with
  | error e => exact .refused
  | ok u =>
    cases hk : C.replayTupleKey c.source c.request with
    | error e => exact .refused
    | ok key =>
      have hr := CheckEffect.keyed (m := g.acceptedByKey) ht hk
      by_cases hmem : key ∈ g.acceptedByKey.prune c.now <;>
        simpa [prune, hmem, Except.isOk, Except.toBool, Bind.bind, Except.bind, Pure.pure,
          Except.pure] using hr

end

structure CheckEvent where
  check : SignedCheck
  accepted : Bool

def CheckEvent.item (C : ReplayCodec) (e : CheckEvent) : Option (String × ℤ) :=
  if e.accepted then e.check.item C else none

/-- Calls one after another, with a clock that never runs backwards. -/
abbrev Chronological (times : List ℤ) : Prop := times.Pairwise (· ≤ ·)

def ReplayGuard.Step (C : ReplayCodec) (g : ReplayGuard) (e : CheckEvent) (g' : ReplayGuard) : Prop :=
  e.accepted = (g.checkSignedRequest C e.check.source e.check.request e.check.now).1.isOk ∧
    g' = (g.checkSignedRequest C e.check.source e.check.request e.check.now).2

def ReplayGuard.observe (C : ReplayCodec) (g : ReplayGuard) (c : SignedCheck) :
    CheckEvent × ReplayGuard :=
  let result := g.checkSignedRequest C c.source c.request c.now
  (⟨c, result.1.isOk⟩, result.2)

theorem ReplayGuard.step_observe (C : ReplayCodec) (g : ReplayGuard) (c : SignedCheck) :
    g.Step C (g.observe C c).1 (g.observe C c).2 :=
  ⟨rfl, rfl⟩

/-- Calls of a node guard: envelopes share its map with signed requests. -/
inductive NodeGuardEvent
  | signed (e : CheckEvent)
  | envelope (source : RootQualifiedDeviceRef) (envelope : Envelope) (now : ℤ)

namespace NodeGuardEvent

def now : NodeGuardEvent → ℤ
  | signed e => e.check.now
  | envelope _ _ now => now

def item (C : ReplayCodec) : NodeGuardEvent → Option (String × ℤ)
  | signed e => e.item C
  | envelope .. => none

end NodeGuardEvent

def NodeReplayGuardState.Step (C : ReplayCodec) (g : NodeReplayGuardState) :
    NodeGuardEvent → NodeReplayGuardState → Prop
  | .signed e, g' =>
    e.accepted = (g.checkSignedRequest C e.check.source e.check.request e.check.now).1.isOk ∧
      g' = (g.checkSignedRequest C e.check.source e.check.request e.check.now).2
  | .envelope source envelope now, g' => g' = (g.checkEnvelope source envelope now).2

def NodeReplayGuardState.observe (C : ReplayCodec) (g : NodeReplayGuardState) (c : SignedCheck) :
    NodeGuardEvent × NodeReplayGuardState :=
  let result := g.checkSignedRequest C c.source c.request c.now
  (.signed ⟨c, result.1.isOk⟩, result.2)

theorem NodeReplayGuardState.step_observe (C : ReplayCodec) (g : NodeReplayGuardState)
    (c : SignedCheck) : g.Step C (g.observe C c).1 (g.observe C c).2 :=
  ⟨rfl, rfl⟩

/-- What a call owes to earlier acceptances: it keeps them, accepts none again, and records its own. -/
structure GuardedStep (m : AcceptedKeys) (now : ℤ) (item : Option (String × ℤ)) (m' : AcceptedKeys) :
    Prop where
  record : ∀ i, item = some i → m'.Remembers now i
  keep : ∀ t i, t ≤ now → m.Remembers t i → m'.Remembers now i
  refuse : ∀ t i, t ≤ now → m.Remembers t i → item ≠ some i

theorem CheckEffect.guarded {C : ReplayCodec} {m m' : AcceptedKeys} {e : CheckEvent}
    (h : CheckEffect C m e.check e.accepted m') (hkeeps : e.check.KeepsExpiry C m) :
    GuardedStep m e.check.now (e.item C) m' := by
  rcases e with ⟨c, ok⟩
  dsimp only at h hkeeps
  cases h with
  | refused => exact ⟨by simp [CheckEvent.item], fun t i ht => Or.imp (by omega) id,
      by simp [CheckEvent.item]⟩
  | unnamed => exact ⟨by simp [CheckEvent.item], fun t i ht => AcceptedKeys.remembers_prune ht,
      by simp [CheckEvent.item]⟩
  | @keyed key htimes hkey =>
    have hitem : c.item C = some (key, c.request.expiresAt) := by
      simp [SignedCheck.item, hkey, Except.toOption]
    refine ⟨?_, ?_, ?_⟩
    · intro i hi
      obtain ⟨-, rfl⟩ : _ ∧ (key, c.request.expiresAt) = i := by
        simpa [CheckEvent.item, hitem] using hi
      exact AcceptedKeys.remembers_insert_self _ _ _
    · intro t i ht hm
      refine AcceptedKeys.remembers_insert ?_ (AcceptedKeys.remembers_prune ht hm)
      intro e he
      obtain ⟨he, hlive⟩ : m[key]? = some e ∧ c.now ≤ e := by
        simpa [Option.filter_eq_some_iff] using he
      simp only [SignedCheck.KeepsExpiry, htimes, hkey] at hkeeps
      exact hkeeps e he hlive
    · intro t i ht hm hi
      obtain ⟨hnew, rfl⟩ : key ∉ m.prune c.now ∧ (key, c.request.expiresAt) = i := by
        simpa [CheckEvent.item, hitem] using hi
      exact hnew (AcceptedKeys.mem_of_remembers (AcceptedKeys.remembers_prune ht hm)
        (le_expiresAt_of_checkRequestTimes htimes))

/-- An envelope is written only under a key that is not stored, so it lowers no expiry. -/
theorem NodeReplayGuardState.checkEnvelope_guarded (g : NodeReplayGuardState)
    (source : RootQualifiedDeviceRef) (envelope : Envelope) (now : ℤ) :
    GuardedStep g.acceptedByKey now none (g.checkEnvelope source envelope now).2.acceptedByKey := by
  refine ⟨by simp, fun t i ht hm => ?_, by simp⟩
  rw [checkEnvelope_state, acceptEnvelopeOnce]
  cases checkEnvelopeTimes source envelope now with
  | error e => exact hm.imp (by omega) id
  | ok expiresAt =>
    have hpruned := AcceptedKeys.remembers_prune ht hm
    dsimp only
    split_ifs with hdup
    · exact hpruned
    · refine AcceptedKeys.remembers_insert (fun e he => ?_) hpruned
      have hmem := Std.ExtTreeMap.isSome_getElem?_iff_mem.mp (Option.isSome_of_eq_some he)
      exact absurd hmem (not_or.mp hdup).1

section
variable (C : ReplayCodec)

/-- Steps of a guard whose check never shortens the expiry of a live stored key. -/
def ReplayGuard.KeepingStep (g : ReplayGuard) (e : CheckEvent) (g' : ReplayGuard) : Prop :=
  g.Step C e g' ∧ e.check.KeepsExpiry C g.accepted

def NodeReplayGuardState.KeepingStep (g : NodeReplayGuardState) (e : NodeGuardEvent)
    (g' : NodeReplayGuardState) : Prop :=
  g.Step C e g' ∧ ∀ c, e = .signed c → c.check.KeepsExpiry C g.acceptedByKey

theorem ReplayGuard.KeepingStep.guarded {g g' : ReplayGuard} {e : CheckEvent}
    (h : g.KeepingStep C e g') : GuardedStep g.accepted e.check.now (e.item C) g'.accepted := by
  obtain ⟨⟨hacc, rfl⟩, hkeeps⟩ := h
  exact CheckEffect.guarded (hacc ▸ g.checkSignedRequest_effect C e.check) hkeeps

theorem NodeReplayGuardState.KeepingStep.guarded {g g' : NodeReplayGuardState} {e : NodeGuardEvent}
    (h : g.KeepingStep C e g') : GuardedStep g.acceptedByKey e.now (e.item C) g'.acceptedByKey := by
  obtain ⟨hstep, hkeeps⟩ := h
  cases e with
  | signed e =>
    obtain ⟨hacc, rfl⟩ := hstep
    exact CheckEffect.guarded (hacc ▸ g.checkSignedRequest_effect C e.check) (hkeeps e rfl)
  | envelope source envelope now =>
    obtain rfl := hstep
    exact g.checkEnvelope_guarded source envelope now

/-- Runs of guarded steps accept no item twice. -/
theorem GuardedStep.nodup_items {σ ι : Type*} {step : σ → ι → σ → Prop} (keys : σ → AcceptedKeys)
    {now : ι → ℤ} {item : ι → Option (String × ℤ)}
    (hstep : ∀ s i t, step s i t → GuardedStep (keys s) (now i) (item i) (keys t))
    {s t : σ} {labels : List ι} (hrun : Run step s labels t)
    (hmono : (labels.map now).Pairwise (· ≤ ·)) : (labels.filterMap item).Nodup :=
  hrun.nodup_accepted (fun s t i => (keys s).Remembers t i)
    (List.pairwise_map.mp hmono)
    (fun s i t a h => (hstep s i t h).record a)
    (fun s i t a τ h => (hstep s i t h).keep τ a)
    (fun s i t a τ h => (hstep s i t h).refuse τ a)

/-- In a run of either guard that never presents a shorter expiry for a live key, no key is accepted
twice with one expiry. -/
theorem signedRequest_accepted_once : (∀ (g g' : ReplayGuard) (events : List CheckEvent),
      Run (ReplayGuard.KeepingStep C) g events g' →
      Chronological (events.map (·.check.now)) → (events.filterMap (CheckEvent.item C)).Nodup) ∧
    (∀ (g g' : NodeReplayGuardState) (events : List NodeGuardEvent),
      Run (NodeReplayGuardState.KeepingStep C) g events g' →
      Chronological (events.map (·.now)) → (events.filterMap (NodeGuardEvent.item C)).Nodup) :=
  ⟨fun _ _ _ hrun hmono => GuardedStep.nodup_items ReplayGuard.accepted
      (fun _ _ _ h => h.guarded) hrun hmono,
    fun _ _ _ hrun hmono => GuardedStep.nodup_items NodeReplayGuardState.acceptedByKey
      (fun _ _ _ h => h.guarded) hrun hmono⟩

end

/-- JSON text for names that need no escaping, and the digest of the one tuple used below. -/
def plainCodec : ReplayCodec where
  jsonPair a b := .ok (utf8 ("[\"" ++ a ++ "\",\"" ++ b ++ "\"]"))
  canonicalTuple a b c d :=
    .ok (utf8 ("[\"" ++ a ++ "\",\"" ++ b ++ "\",\"" ++ c ++ "\",\"" ++ d ++ "\"]"))
  blake3 bytes :=
    if bytes = utf8 "ramflux.signed_request.replay.v2[\"root\",\"phone\",\"n1\",\"r1\"]" then
      #v[47, 89, 129, 200, 223, 211, 234, 33, 120, 174, 243, 185, 97, 250, 233, 76,
        35, 44, 179, 239, 185, 229, 147, 42, 254, 12, 119, 120, 84, 78, 213, 160]
    else Vector.replicate 32 0

def phoneCheck (expiresAt now : ℤ) : SignedCheck where
  source := ⟨"root", "phone", "root~WyJyb290IiwicGhvbmUiXQ"⟩
  request := ⟨"phone", "r1", "n1", 0, expiresAt⟩
  now := now

/-- The request passes, is refused while stored, and passes with a later expiry once pruned. -/
theorem signedRequest_accepted_once_phone :
    let checks := [phoneCheck 1000 0, phoneCheck 1000 500, phoneCheck 3000 2000]
    let replay := Run.trace (ReplayGuard.observe plainCodec) .new checks
    let node := Run.trace (NodeReplayGuardState.observe plainCodec) .new checks
    replay.1.map (·.accepted) = [true, false, true] ∧
      (replay.1.filterMap (CheckEvent.item plainCodec)).Nodup ∧
      (node.1.filterMap (NodeGuardEvent.item plainCodec)).Nodup := by
  refine ⟨by decide +kernel, ?_, ?_⟩
  · refine (signedRequest_accepted_once plainCodec).1 _ _ _
      (Run.of_trace_along _ (fun g c hkeeps => ⟨g.step_observe plainCodec c, hkeeps⟩) ?_) ?_
    all_goals decide +kernel
  · refine (signedRequest_accepted_once plainCodec).2 _ _ _
      (Run.of_trace_along (fun g c => c.KeepsExpiry plainCodec g.acceptedByKey) ?_ ?_) ?_
    · rintro g c hkeeps
      refine ⟨g.step_observe plainCodec c, ?_⟩
      rintro e he
      obtain rfl : _ = e := NodeGuardEvent.signed.inj he
      exact hkeeps
    all_goals decide +kernel

/-- A refused duplicate with a shorter expiry makes room for the original request to pass again. -/
theorem signedRequest_accepted_again :
    (∃ events g', Run (ReplayGuard.Step plainCodec) .new events g' ∧
      Chronological (events.map (·.check.now)) ∧
      ¬ (events.filterMap (CheckEvent.item plainCodec)).Nodup) ∧
    (∃ events g', Run (NodeReplayGuardState.Step plainCodec) .new events g' ∧
      Chronological (events.map (·.now)) ∧
      ¬ (events.filterMap (NodeGuardEvent.item plainCodec)).Nodup) := by
  let checks := [phoneCheck 1000 0, phoneCheck 100 0, phoneCheck 1000 200]
  refine ⟨⟨_, _, Run.of_trace (fun g c => ReplayGuard.step_observe plainCodec g c) .new checks, ?_, ?_⟩,
    ⟨_, _, Run.of_trace (fun g c => NodeReplayGuardState.step_observe plainCodec g c) .new checks,
      ?_, ?_⟩⟩
  all_goals decide +kernel

end Ramflux
