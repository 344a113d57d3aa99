import Ramflux.Lib.Run
import Ramflux.Protocol.SurfaceState

/-! A streaming surface only moves forward: versions, closing and finality survive every accepted call.
Each checks its result as a whole, so what holds of a state does not depend on how it was reached. -/
namespace Ramflux.Surfaces
open Fallible OrdMap List Except Option

variable {rules : SurfaceRules}

theorem distinctIds_foldlM_ok {idOf : Value → Except SurfaceReject String} {duplicate : SurfaceReject}
    {values : List Value} {seen all : OrdSet String}
    (h : values.foldlM (fun ids v => do
      let id ← idOf v
      refuseWhen (id ∈ ids) duplicate
      pure (ids.insert id)) seen = .ok all) :
    ∃ ids : List String, values.map idOf = ids.map .ok ∧ ids.Nodup ∧ ∀ id ∈ ids, id ∉ seen := by
  induction values generalizing seen with
  | nil => exact ⟨[], rfl, nodup_nil, nofun⟩
  | cons v values ih =>
    obtain ⟨next, hround, hrest⟩ := bind_eq_ok.mp h
    obtain ⟨id, hid, hround⟩ := bind_eq_ok.mp hround
    obtain ⟨hnew, hround⟩ := not_refused hround
    cases hround
    obtain ⟨ids, hids, hnodup, hfresh⟩ := ih hrest
    have hout : ∀ other ∈ ids, other ≠ id ∧ other ∉ seen := by
      intro other hother
      have hmem := hfresh other hother
      rw [OrdSet.mem_insert_iff] at hmem
      exact not_or.mp hmem
    refine ⟨id :: ids, ?_, nodup_cons.mpr ⟨fun hmem => (hout id hmem).1 rfl, hnodup⟩, ?_⟩
    · rw [map_cons, map_cons, hid, hids]
    · refine forall_mem_cons.mpr ⟨hnew, fun other hother => (hout other hother).2⟩

theorem validatedHash_ids {content : CreateSurfaceCommand} {hash : String}
    (h : validatedHash rules content = .ok hash) :
    ∃ ids : List String, content.components.map componentId = ids.map .ok ∧ ids.Nodup := by
  iterate 5 replace h := ok_after h
  obtain ⟨_, hids, -⟩ := bind_eq_ok.mp h
  obtain ⟨ids, hmap, hnodup, -⟩ := distinctIds_foldlM_ok hids
  exact ⟨ids, hmap, hnodup⟩

def Finalized (rules : SurfaceRules) (s : SurfaceState) (id : String) : Prop :=
  finalComponentKey rules id ∈ s.finalComponents

/-- Components agree with the final texts of their identifiers. -/
def Agrees (rules : SurfaceRules) (finals : OrdMap String FinalText) (components : List Value) : Prop :=
  ∀ component ∈ components, ∀ id, componentId component = .ok id →
    ∀ entry, finals[finalComponentKey rules id]? = some entry → entry.matches rules component

variable {finals : OrdMap String FinalText} {components : List Value} {s s' next : SurfaceState}
  {event : A2uiConversationEvent}

theorem checkFinal_ok
    (h : checkFinal rules finals components = .ok ()) : Agrees rules finals components := by
  intro component hmem id hid entry hentry
  obtain ⟨id', hid', h⟩ := bind_eq_ok.mp (forM_eq_ok.mp h component hmem)
  cases hid.symm.trans hid'
  rw [hentry] at h
  exact not_not.mp (refuseWhen_eq_ok.mp h)

/-- What every accepted call establishes. -/
structure Sound (rules : SurfaceRules) (s : SurfaceState) : Prop where
  hash : ∀ content, s.content = some content →
    ∃ hash, s.hash = some hash ∧ validatedHash rules content = .ok hash
  final : ∀ content, s.content = some content → Agrees rules s.finalComponents content.components

theorem Sound.default : Sound rules .default := ⟨nofun, nofun⟩

/-- What every accepted call keeps. -/
structure Grows (s s' : SurfaceState) : Prop where
  version : s.version ≤ s'.version
  closed : s.closed = true → s'.closed = true
  final : ∀ (key : String) entry, s.finalComponents[key]? = some entry → s'.finalComponents[key]? = some entry

theorem Grows.refl (s : SurfaceState) : Grows s s := ⟨le_rfl, id, fun _ _ h => h⟩

theorem Grows.trans {s'' : SurfaceState} (h : Grows s s') (h' : Grows s' s'') : Grows s s'' :=
  ⟨h.version.trans h'.version, fun hc => h'.closed (h.closed hc),
    fun key entry he => h'.final key entry (h.final key entry he)⟩

theorem appendText_ok {components' : List Value} {append : StreamAppendCommand}
    {finals' : OrdMap String FinalText}
    (h : appendText rules components append finals = .ok (components', finals')) :
    finalComponentKey rules append.componentId ∉ finals ∧
      (∀ (key : String) entry, finals[key]? = some entry → finals'[key]? = some entry) ∧
      ∃ index component nested text, position components append.componentId = some index ∧
        components[index]? = some component ∧ streamText component = some (nested, text) ∧
        components' = components.set index (writeText component (text ++ append.textDelta)) ∧
        (append.final = true → finalComponentKey rules append.componentId ∈ finals') := by
  obtain ⟨hopen, h⟩ := not_refused h
  replace h := ok_after h
  split at h
  · cases h
  · next index hposition =>
    dsimp only at h
    obtain ⟨hlt, -⟩ := findIdx?_eq_some_iff_getElem.mp hposition
    have hcomp : components[index]? = some (components.getD index .null) := by
      rw [getD_eq_getElem?_getD, getElem?_eq_getElem hlt]
      rfl
    split at h
    · cases h
    · next nested text htext =>
      iterate 2 replace h := ok_after h
      cases hfinal : append.final with
      | false =>
        rw [hfinal] at h
        cases h
        exact ⟨hopen, fun _ _ he => he, index, _, nested, text, hposition, hcomp, htext, rfl, nofun⟩
      | true =>
        rw [hfinal] at h
        replace h := ok_after h
        cases h
        refine ⟨hopen, fun key entry he => ?_, index, _, nested, text, hposition, hcomp, htext, rfl,
          fun _ => Std.ExtTreeMap.mem_insert_self⟩
        have hne : finalComponentKey rules append.componentId ≠ key := by
          rintro rfl
          exact hopen (mem_of_eq_some he)
        rw [getElem?_insert_of_ne _ _ hne]
        exact he

theorem componentId_writeText (component : Value) (text : String) :
    componentId (writeText component text) = componentId component := by
  have hget : (writeText component text).get "id" = component.get "id" := by
    unfold writeText
    cases component.get "text" with
    | some old => exact JsonTree.get_set_of_ne _ _ (by decide)
    | none =>
      cases component.get "data" with
      | some data => exact JsonTree.get_set_of_ne _ _ (by decide)
      | none => rfl
  unfold componentId
  rw [hget]

theorem exists_mem_set {id : String} {index : ℕ} {component : Value}
    (hposition : position components id = some index) (hcomp : components[index]? = some component)
    (text : String) : ∃ c ∈ components.set index (writeText component text), componentId c = .ok id := by
  obtain ⟨hlt, hid, -⟩ := findIdx?_eq_some_iff_getElem.mp hposition
  have hget : components[index] = component := some.inj ((getElem?_eq_getElem hlt).symm.trans hcomp)
  refine ⟨writeText component text, mem_set hlt _, ?_⟩
  rw [componentId_writeText, ← hget]
  exact of_decide_eq_true hid

variable {declared : Option String}

theorem update_ok {content : CreateSurfaceCommand} {command : A2uiConversationCommand}
    (h : s.update rules content command = .ok (next, declared)) :
    (s.closed = true → next.closed = true) ∧
      (∀ (key : String) entry, s.finalComponents[key]? = some entry → next.finalComponents[key]? = some entry) := by
  cases command with
  | createSurface c => cases h
  | updateComponents update | patchSurface patch =>
    replace h := ok_after h
    obtain ⟨_, -, h⟩ := bind_eq_ok.mp h
    cases h
    exact ⟨id, fun _ _ he => he⟩
  | updateDataModel update =>
    replace h := ok_after h
    cases h
    exact ⟨id, fun _ _ he => he⟩
  | deleteSurface c =>
    cases h
    exact ⟨fun _ => rfl, fun _ _ he => he⟩
  | streamAppend append =>
    obtain ⟨⟨components, finals⟩, happend, h⟩ := bind_eq_ok.mp h
    cases h
    exact ⟨id, (appendText_ok happend).2.1⟩

theorem command_ok (h : s.command rules event = .ok (next, declared)) :
    (s.closed = true → next.closed = true) ∧
      (∀ (key : String) entry, s.finalComponents[key]? = some entry → next.finalComponents[key]? = some entry) := by
  unfold SurfaceState.command at h
  split at h
  · cases h
    exact ⟨id, fun _ _ he => he⟩
  · cases h
  · cases h
  · obtain ⟨_, -, h⟩ := bind_eq_ok.mp h
    exact update_ok h

structure Applies (rules : SurfaceRules) (s : SurfaceState) (event : A2uiConversationEvent) (s' next : SurfaceState) :
    Prop where
  notClosed : s.closed = false
  version : event.version = s.version + 1
  command : ∃ declared, s.command rules event = .ok (next, declared)
  result : s' = { next with version := event.version, hash := s'.hash }
  sound : Sound rules s'

theorem apply_ok (h : s.apply rules event = .ok s') : ∃ next, Applies rules s event s' next := by
  obtain ⟨hclosed, h⟩ := not_refused h
  replace h := ok_after h
  obtain ⟨hvers, h⟩ := not_refused h
  replace h := ok_after h
  obtain ⟨⟨next, declared⟩, hcmd, h⟩ := bind_eq_ok.mp h
  dsimp only at h
  split at h
  · cases h
  · next content hcontent =>
    obtain ⟨_, hfinal, h⟩ := bind_eq_ok.mp h
    obtain ⟨hash, hhash, h⟩ := bind_eq_ok.mp h
    replace h := ok_after h
    cases h
    refine ⟨next, Bool.eq_false_iff.mpr hclosed, not_not.mp hvers,
      ⟨declared, hcmd⟩, rfl, ⟨fun other hother => ?_, fun other hother => ?_⟩⟩
    · cases hcontent.symm.trans hother
      exact ⟨hash, rfl, hhash⟩
    · cases hcontent.symm.trans hother
      exact checkFinal_ok hfinal

theorem Applies.grows
    (h : Applies rules s event s' next) : Grows s s' ∧ s'.version = s.version + 1 := by
  obtain ⟨declared, hcmd⟩ := h.command
  obtain ⟨hclosed, hfinal⟩ := command_ok hcmd
  have hvers : s'.version = s.version + 1 := by
    rw [h.result]
    exact h.version
  refine ⟨⟨?_, ?_, ?_⟩, hvers⟩
  · omega
  · rw [h.result]
    exact hclosed
  · rw [h.result]
    exact hfinal

/-- An accepted append: its component was not final, is there afterwards, and final if it says so. -/
theorem Applies.append {append : StreamAppendCommand}
    (h : Applies rules s event s' next) (hevent : event.command = .streamAppend append) :
    ¬ Finalized rules s append.componentId ∧
      (∃ content, s'.content = some content ∧ ∃ c ∈ content.components, componentId c = .ok append.componentId) ∧
      (append.final = true → Finalized rules s' append.componentId) := by
  obtain ⟨declared, hcmd⟩ := h.command
  unfold SurfaceState.command at hcmd
  rw [hevent] at hcmd
  cases hcontent : s.content with
  | none =>
    rw [hcontent] at hcmd
    cases hcmd
  | some content =>
    rw [hcontent] at hcmd
    replace hcmd := ok_after hcmd
    obtain ⟨⟨components, finals⟩, happend, hcmd⟩ := bind_eq_ok.mp hcmd
    obtain ⟨hnext, -⟩ := Prod.mk.inj (ok.inj hcmd)
    obtain ⟨hopen, -, index, component, nested, text, hposition, hcomp, -, rfl, hfinal⟩ := appendText_ok happend
    have hthere := exists_mem_set hposition hcomp (text ++ append.textDelta)
    refine ⟨hopen, ⟨{ content with components := _ }, ?_, hthere⟩, fun hlast => ?_⟩
    · rw [h.result, ← hnext]
    · rw [h.result, ← hnext]
      exact hfinal hlast

theorem keepFinal_foldlM_ok {known : List (String × FinalText)} {all : OrdMap String FinalText}
    (h : known.foldlM keepFinal finals = .ok all) :
    (∀ (key : String) entry, finals[key]? = some entry → all[key]? = some entry) ∧
      ∀ e ∈ known, all[e.1]? = some e.2 := by
  induction known generalizing finals with
  | nil =>
    cases h
    exact ⟨fun _ _ he => he, nofun⟩
  | cons e known ih =>
    obtain ⟨next, hround, hrest⟩ := bind_eq_ok.mp h
    obtain ⟨hsame, hround⟩ := not_refused hround
    cases hround
    obtain ⟨hkeep, hknown⟩ := ih hrest
    refine ⟨fun key entry hentry => hkeep key entry ?_, forall_mem_cons.mpr ⟨?_, hknown⟩⟩
    · by_cases hkey : e.1 = key
      · -- a text that is there is the known one
        rw [hkey, hentry] at hsame
        have heq : entry = e.2 := not_not.mp fun hne => hsame (decide_eq_true hne)
        rw [hkey, heq]
        exact Std.ExtTreeMap.getElem?_insert_self
      · rw [getElem?_insert_of_ne _ _ hkey]
        exact hentry
    · exact hkeep e.1 e.2 Std.ExtTreeMap.getElem?_insert_self

theorem fromCheckpointBytes_hash {bytes : Bytes} (h : fromCheckpointBytes rules bytes = .ok s) :
    ∀ content, s.content = some content → ∃ hash, s.hash = some hash ∧ validatedHash rules content = .ok hash := by
  intro content hcontent
  replace h := ok_after h
  split at h
  · cases h
  · next saved hparse =>
    iterate 2 replace h := ok_after h
    cases hsaved : saved.content with
    | none =>
      rw [hsaved] at h
      replace h := ok_after h
      cases h
      cases hcontent
    | some found =>
      rw [hsaved] at h
      replace h := ok_after h
      split at h
      · cases h
      · replace h := ok_after h
        obtain ⟨hash, hhash, h⟩ := bind_eq_ok.mp h
        obtain ⟨_, -, h⟩ := bind_eq_ok.mp h
        replace h := ok_after h
        cases h
        cases hcontent
        exact ⟨hash, rfl, hhash⟩

theorem resynchronize_ok {checkpoint : Bytes}
    (h : s.resynchronize rules event checkpoint = .ok s') : Sound rules s' ∧ Grows s s' := by
  obtain ⟨next, hnext, h⟩ := bind_eq_ok.mp h
  cases hcmd : event.command with
  | createSurface content =>
    rw [hcmd] at h
    obtain ⟨hbound, h⟩ := not_refused h
    obtain ⟨hscope, h⟩ := not_refused h
    obtain ⟨hclosed, h⟩ := not_refused h
    replace h := ok_after h
    obtain ⟨finals, hfinals, h⟩ := bind_eq_ok.mp h
    replace h := ok_after h
    obtain ⟨_, hcheck, h⟩ := bind_eq_ok.mp h
    cases h
    obtain ⟨-, hrest⟩ := not_or.mp hbound
    have hcontent : next.content = some content := not_not.mp (not_or.mp hrest).2
    have hvers : s.version ≤ next.version := not_lt.mp (not_or.mp hscope).1
    refine ⟨⟨fun other hother => fromCheckpointBytes_hash hnext other hother, fun other hother => ?_⟩, hvers,
      fun hc => ?_, fun key entry he => ?_⟩
    · cases hcontent.symm.trans hother
      exact checkFinal_ok hcheck
    · have hallowed := hclosed
      refine not_not.mp fun hopen => hallowed ⟨hc, .inr (.inr hopen)⟩
    · exact (keepFinal_foldlM_ok hfinals).2 (key, entry) (mem_toList_iff.mpr he)
  | updateComponents c | updateDataModel c | deleteSurface c | patchSurface c | streamAppend c =>
    rw [hcmd] at h; cases h

theorem resynchronizeCompact_ok {metadata : Bytes}
    (h : s.resynchronizeCompact rules event metadata = .ok s') : Sound rules s' ∧ Grows s s' := by
  replace h := ok_after h
  split at h
  · cases h
  · obtain ⟨_, -, h⟩ := bind_eq_ok.mp h
    split at h
    · cases h
    · obtain ⟨_, -, h⟩ := bind_eq_ok.mp h
      obtain ⟨_, -, h⟩ := bind_eq_ok.mp h
      split at h
      · cases h
      · exact resynchronize_ok h
  · cases h

inductive Call
  | apply (event : A2uiConversationEvent)
  | resynchronize (event : A2uiConversationEvent) (checkpoint : Bytes)
  | resynchronizeCompact (event : A2uiConversationEvent) (metadata : Bytes)

def SurfaceState.call (rules : SurfaceRules) (s : SurfaceState) : Call → Except SurfaceReject SurfaceState
  | .apply event => s.apply rules event
  | .resynchronize event checkpoint => s.resynchronize rules event checkpoint
  | .resynchronizeCompact event metadata => s.resynchronizeCompact rules event metadata

def Accepts (rules : SurfaceRules) (s : SurfaceState) (call : Call) (s' : SurfaceState) : Prop :=
  s.call rules call = .ok s'

theorem call_ok {call : Call} (h : Accepts rules s call s') : Sound rules s' ∧ Grows s s' := by
  cases call with
  | apply event =>
    obtain ⟨next, happlies⟩ := apply_ok h
    exact ⟨happlies.sound, happlies.grows.1⟩
  | resynchronize event checkpoint => exact resynchronize_ok h
  | resynchronizeCompact event metadata => exact resynchronizeCompact_ok h

variable {calls : List Call}

theorem sound_of_run (hrun : Run (Accepts rules) s calls s')
    (hsound : Sound rules s) : Sound rules s' :=
  hrun.preserves hsound fun _ _ _ _ hstep => (call_ok hstep).1

theorem grows_of_run (hrun : Run (Accepts rules) s calls s') : Grows s s' :=
  hrun.preserves (P := Grows s) (.refl s) fun _ _ _ hgrows hstep => hgrows.trans (call_ok hstep).2

theorem FinalText.matches_unique (hinj : ∀ domain, Function.Injective (rules.hashBase64url domain))
    {entry : FinalText} {a b : Value} (ha : entry.matches rules a) (hb : entry.matches rules b) :
    (streamText a).isSome ∧ streamText b = streamText a := by
  unfold FinalText.matches at ha hb
  cases hta : streamText a with
  | none =>
    rw [hta] at ha
    cases ha
  | some sa =>
    cases htb : streamText b with
    | none =>
      rw [htb] at hb
      cases hb
    | some sb =>
      rw [hta] at ha
      rw [htb] at hb
      obtain ⟨hna, hha⟩ : sa.1 = entry.nested ∧ finalTextHash rules sa.2 = entry.textHash := of_decide_eq_true ha
      obtain ⟨hnb, hhb⟩ : sb.1 = entry.nested ∧ finalTextHash rules sb.2 = entry.textHash := of_decide_eq_true hb
      have htext : sb.2 = sa.2 := utf8_injective (hinj a2uiFinalText (hhb.trans hha.symm))
      exact ⟨rfl, congrArg some (Prod.ext (hnb.trans hna.symm) htext)⟩

/-- A reached state and everything that can follow it. -/
structure SafeSurface (rules : SurfaceRules) (s : SurfaceState) : Prop where
  /-- identifiers are unique and the stored hash is the content's -/
  content : ∀ content, s.content = some content →
    (∃ ids : List String, content.components.map componentId = ids.map .ok ∧ ids.Nodup) ∧
      ∃ hash, s.hash = some hash ∧ validatedHash rules content = .ok hash
  applied : ∀ event s', s.apply rules event = .ok s' → s'.version = s.version + 1
  version : ∀ calls s', Run (Accepts rules) s calls s' → s.version ≤ s'.version
  closed : s.closed = true → (∀ calls s', Run (Accepts rules) s calls s' → s'.closed = true) ∧
    ∀ event s', s.apply rules event ≠ .ok s'
  final : ∀ id, Finalized rules s id → ∀ calls s', Run (Accepts rules) s calls s' → Finalized rules s' id
  /-- a component that is there has the final text stored for it, also one finalized while absent -/
  stored : ∀ id entry, s.finalComponents[finalComponentKey rules id]? = some entry →
    ∀ calls s', Run (Accepts rules) s calls s' → ∀ content', s'.content = some content' →
      ∀ c' ∈ content'.components, componentId c' = .ok id → entry.matches rules c'
  text : ∀ id, Finalized rules s id → ∀ calls s', Run (Accepts rules) s calls s' →
    ∀ content content', s.content = some content → s'.content = some content' →
      ∀ c ∈ content.components, ∀ c' ∈ content'.components, componentId c = .ok id → componentId c' = .ok id →
        (streamText c).isSome ∧ streamText c' = streamText c
  appended : ∀ event append s', event.command = .streamAppend append → s.apply rules event = .ok s' →
    ¬ Finalized rules s append.componentId ∧
      (append.final = true → Finalized rules s' append.componentId ∧
        ∃ content, s'.content = some content ∧ ∃ c ∈ content.components, componentId c = .ok append.componentId)

/-- Streaming surfaces are monotone. -/
theorem surface_monotone (rules : SurfaceRules) (hinj : ∀ domain, Function.Injective (rules.hashBase64url domain))
    {calls : List Call} {s : SurfaceState} (hrun : Run (Accepts rules) .default calls s) : SafeSurface rules s := by
  have hsound := sound_of_run hrun .default
  have hstored : ∀ id entry, s.finalComponents[finalComponentKey rules id]? = some entry →
      ∀ calls s', Run (Accepts rules) s calls s' → ∀ content', s'.content = some content' →
        ∀ c' ∈ content'.components, componentId c' = .ok id → entry.matches rules c' := by
    intro id entry hentry calls s' hlater content' hcontent' c' hc' hid
    exact (sound_of_run hlater hsound).final content' hcontent' c' hc' id hid entry
      ((grows_of_run hlater).final _ entry hentry)
  refine ⟨fun content hcontent => ?_, fun event s' h => ?_, fun calls s' hlater => (grows_of_run hlater).version,
    fun hclosed => ⟨fun calls s' hlater => (grows_of_run hlater).closed hclosed, fun event s' h => ?_⟩,
    fun id hid calls s' hlater => ?_, hstored, ?_, fun event append s' hevent h => ?_⟩
  · obtain ⟨hash, hhash, hvalid⟩ := hsound.hash content hcontent
    exact ⟨validatedHash_ids hvalid, hash, hhash, hvalid⟩
  · obtain ⟨next, happlies⟩ := apply_ok h
    exact happlies.grows.2
  · obtain ⟨next, happlies⟩ := apply_ok h
    exact absurd (happlies.notClosed.symm.trans hclosed) nofun
  · obtain ⟨entry, hentry⟩ := mem_iff_exists.mp hid
    exact mem_of_eq_some ((grows_of_run hlater).final _ entry hentry)
  · intro id hid calls s' hlater content content' hcontent hcontent' c hc c' hc' hcid hcid'
    obtain ⟨entry, hentry⟩ := mem_iff_exists.mp hid
    have hnow := hstored id entry hentry [] s .nil content hcontent c hc hcid
    have hthen := hstored id entry hentry calls s' hlater content' hcontent' c' hc' hcid'
    exact FinalText.matches_unique hinj hnow hthen
  · obtain ⟨next, happlies⟩ := apply_ok h
    obtain ⟨hopen, hthere, hlast⟩ := happlies.append hevent
    exact ⟨hopen, fun hend => ⟨hlast hend, hthere⟩⟩

def callAll (rules : SurfaceRules) (s : SurfaceState) (calls : List Call) : Except SurfaceReject SurfaceState :=
  calls.foldlM (SurfaceState.call rules) s

/-- Rules without a text policy; a digest is the text it is made from. -/
def plainRules : SurfaceRules where
  hashBase64url _ := encodeBase64url
  isBlank text := text.isEmpty
  freeTextIsSafe _ := true
  webCatalogValidate _ := .ok ()
  snapshotBytes content := .ok (utf8 content.fallbackText)
  parseCheckpoint _ := none
  parseMetadata _ := none
  checkpointBytes _ := none

/-- One of two blocks is streamed to its end. -/
def streamedCalls : List Call :=
  let block (id : String) : Value := .object [("id", .string id), ("text", .string "H")]
  [.apply ⟨"chat", 1, .createSurface
      ⟨"surface", .messageCard, "basic", "1", "text", none, [block "first", block "second"], ∅, []⟩⟩,
    .apply ⟨"chat", 2, .streamAppend ⟨"surface", "first", "el", false⟩⟩,
    .apply ⟨"chat", 3, .streamAppend ⟨"surface", "second", "i", false⟩⟩,
    .apply ⟨"chat", 4, .streamAppend ⟨"surface", "first", "lo", true⟩⟩]

theorem surface_monotone_streamed : ∃ s, Run (Accepts plainRules) .default streamedCalls s ∧
    SafeSurface plainRules s ∧ Finalized plainRules s "first" ∧ ¬ Finalized plainRules s "second" ∧
      (s.content.map (·.components.map streamText)).getD [] = [some (false, "Hello"), some (false, "Hi")] := by
  have hfacts : (callAll plainRules .default streamedCalls).toOption.map (fun s =>
      (decide (finalComponentKey plainRules "first" ∈ s.finalComponents ∧
        finalComponentKey plainRules "second" ∉ s.finalComponents),
        (s.content.map (·.components.map streamText)).getD [])) =
      some (true, [some (false, "Hello"), some (false, "Hi")]) := by
    decide +kernel
  obtain ⟨s, hs, hfacts⟩ := map_toOption_eq_some hfacts
  obtain ⟨hfinal, htexts⟩ := Prod.mk.inj hfacts
  have hrun : Run (Accepts plainRules) .default streamedCalls s := .of_foldlM hs
  obtain ⟨hfirst, hsecond⟩ := of_decide_eq_true hfinal
  exact ⟨s, hrun, surface_monotone plainRules (fun _ _ _ h => encodeBase64url_inj h) hrun, hfirst, hsecond, htexts⟩

end Ramflux.Surfaces
