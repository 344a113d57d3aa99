import Ramflux.Node.RouterWalSegments

/-! The log's projection does not depend on the clock, and is the same for the process that logged the
records and one that read them back, up to one flag. -/
namespace Ramflux.RouterWal
open List Std.ExtTreeMap SubmissionRecord
variable (digest : ContentDigest) {now : ℤ}

/-- Flag as stored: only records with a local delivery have a sender assignment. -/
def SubmissionRecord.asStored (record : SubmissionRecord) : SubmissionRecord :=
  { record with senderAssigned := record.senderAssigned && record.localDelivery.isSome }

def State.asStored (s : State) : State :=
  { s with submissions := s.submissions.map fun _ record => record.asStored }

def State.replay (digest : ContentDigest) (now : ℤ) (s : State) (r : LogRecord) : State :=
  (s.prepareSenderIdentity r.incarnation r.payload).applyWithSenderAssignment digest now
    r.payload r.location r.payload.localDelivery.isSome

variable (incarnation : Option String) (payload : Payload) (location : Location) (flag : Bool)

@[simp] theorem asStored_record :
    (payload.record location flag).asStored =
      payload.record location (flag && payload.localDelivery.isSome) := rfl

section
variable (s : State)

section
variable (record : SubmissionRecord)

theorem asStored_unindex :
    (s.unindex now record).asStored = s.asStored.unindex now record.asStored := by
  obtain ⟨key, expires, entry, accepted, delivery, location, flag⟩ := record
  cases entry <;> cases delivery <;> rfl

theorem asStored_index :
    (s.index digest now record).asStored = s.asStored.index digest now record.asStored := by
  obtain ⟨key, expires, entry, accepted, delivery, location, flag⟩ := record
  -- The flag is read only where there is a local delivery, and there it is kept.
  cases delivery with
  | none => cases entry <;> rfl
  | some delivery =>
    have hflag : (mk key expires entry accepted (some delivery) location flag).asStored =
        ⟨key, expires, entry, accepted, some delivery, location, flag⟩ := by
      simp [asStored]
    rw [hflag]
    cases entry <;> rfl

theorem asStored_put :
    ({ s with submissions := s.submissions.insert record.replayKey record } : State).asStored =
      { s.asStored with
        submissions := s.asStored.submissions.insert record.replayKey record.asStored } := by
  have hmap : (s.submissions.insert record.replayKey record).map (fun _ record => record.asStored) =
      (s.submissions.map fun _ record => record.asStored).insert record.replayKey record.asStored := by
    apply Std.ExtTreeMap.ext_getElem?
    intro key
    rw [Std.ExtTreeMap.getElem?_map, Std.ExtTreeMap.getElem?_insert, Std.ExtTreeMap.getElem?_insert,
      Std.ExtTreeMap.getElem?_map]
    split <;> rfl
  exact congrArg (fun m => { s with submissions := m }) hmap

end

theorem asStored_drop (key : String) :
    ({ s with submissions := s.submissions.erase key } : State).asStored =
      { s.asStored with submissions := s.asStored.submissions.erase key } := by
  have hmap : (s.submissions.erase key).map (fun _ record => record.asStored) =
      (s.submissions.map fun _ record => record.asStored).erase key := by
    apply Std.ExtTreeMap.ext_getElem?
    intro k
    rw [Std.ExtTreeMap.getElem?_map, Std.ExtTreeMap.getElem?_erase, Std.ExtTreeMap.getElem?_erase,
      Std.ExtTreeMap.getElem?_map]
    split <;> rfl
  exact congrArg (fun m => { s with submissions := m }) hmap

theorem asStored_replace (record : SubmissionRecord) :
    (s.replace digest now record).asStored = s.asStored.replace digest now record.asStored := by
  have hget : s.asStored.submissions[record.asStored.replayKey]? =
      s.submissions[record.replayKey]?.map asStored :=
    getElem?_map
  unfold State.replace
  rw [hget]
  cases s.submissions[record.replayKey]? with
  | none => rw [asStored_put, asStored_index]; rfl
  | some previous =>
    rw [asStored_put, asStored_index, asStored_unindex, asStored_drop]
    rfl

theorem asStored_applyWithSenderAssignment : (s.applyWithSenderAssignment digest now payload location flag).asStored =
      s.asStored.applyWithSenderAssignment digest now payload location
        (flag && payload.localDelivery.isSome) := by
  have hissue : (s.issue payload.entry).asStored = s.asStored.issue payload.entry := by
    cases payload.entry <;> rfl
  unfold State.applyWithSenderAssignment
  rw [asStored_replace, hissue, asStored_record]

theorem asStored_prepareSenderIdentity :
    (s.prepareSenderIdentity incarnation payload).asStored =
      s.asStored.prepareSenderIdentity incarnation payload := by
  unfold State.prepareSenderIdentity
  split <;> rfl

theorem asStored_live (r : LogRecord) :
    (s.live digest now r).asStored = s.asStored.replay digest now r := by
  unfold State.live State.replay State.apply
  rw [asStored_applyWithSenderAssignment, asStored_prepareSenderIdentity, Bool.true_and]

theorem asStored_replay (r : LogRecord) :
    (s.replay digest now r).asStored = s.asStored.replay digest now r := by
  unfold State.replay
  rw [asStored_applyWithSenderAssignment, asStored_prepareSenderIdentity, Bool.and_self]

theorem asStored_foldl_live (records : List LogRecord) :
    (records.foldl (State.live digest now) s).asStored =
      records.foldl (State.replay digest now) s.asStored :=
  (foldl_hom State.asStored fun s r => (asStored_live digest s r).symm).symm

end

@[simp] theorem asStored_default : (default : State).asStored = default := by
  have hmap : (∅ : OrdMap String SubmissionRecord).map (fun _ record => record.asStored) = ∅ := by
    apply Std.ExtTreeMap.ext_getElem?
    simp
  exact congrArg (fun m => { (default : State) with submissions := m }) hmap

theorem asStored_liveProjection (records : List LogRecord) :
    (liveProjection digest now records).asStored =
      records.foldl (State.replay digest now) default := by
  unfold liveProjection
  rw [asStored_foldl_live, asStored_default]

/-- Every record of the projection carries its acceptance time. -/
def State.Accepted (s : State) : Prop :=
  ∀ (key : String) (record : SubmissionRecord),
    s.submissions[key]? = some record → record.acceptedAt.isSome

variable {record : SubmissionRecord} {s : State}

theorem retainUntil_of_accepted (now now' : ℤ)
    (h : record.acceptedAt.isSome) : record.retainUntil now = record.retainUntil now' := by
  obtain ⟨at_, hat⟩ := Option.isSome_iff_exists.mp h
  unfold retainUntil
  rw [hat]

theorem index_of_accepted (now now' : ℤ) (s : State) (h : record.acceptedAt.isSome) :
    s.index digest now record = s.index digest now' record := by
  unfold State.index
  rw [retainUntil_of_accepted now now' h]

theorem unindex_of_accepted (now now' : ℤ) (s : State)
    (h : record.acceptedAt.isSome) : s.unindex now record = s.unindex now' record := by
  unfold State.unindex
  rw [retainUntil_of_accepted now now' h]

section
variable (s : State)

theorem submissions_index (record : SubmissionRecord) :
    (s.index digest now record).submissions = s.submissions := by
  unfold State.index
  cases record.entry <;> cases record.localDelivery <;> rfl

theorem submissions_unindex (record : SubmissionRecord) :
    (s.unindex now record).submissions = s.submissions := by
  unfold State.unindex
  cases record.entry <;> cases record.localDelivery <;> rfl

@[simp] theorem submissions_issue (entry : Option Entry) :
    (s.issue entry).submissions = s.submissions := by
  cases entry <;> rfl

@[simp] theorem submissions_prepareSenderIdentity : (s.prepareSenderIdentity incarnation payload).submissions =
      s.submissions := by
  unfold State.prepareSenderIdentity
  split <;> rfl

theorem getElem?_submissions_replace (record : SubmissionRecord) (key : String) :
    (s.replace digest now record).submissions[key]? =
      if record.replayKey = key then some record else s.submissions[key]? := by
  unfold State.replace
  dsimp only
  rw [submissions_index, OrdMap.getElem?_insert_eq]
  split_ifs with hkey
  · rfl
  · cases s.submissions[record.replayKey]? with
    | none => rfl
    | some previous =>
      rw [submissions_unindex]
      rw [OrdMap.getElem?_erase_eq, if_neg hkey]

end

theorem replace_of_accepted (now now' : ℤ) (hs : s.Accepted) (h : record.acceptedAt.isSome) :
    s.replace digest now record = s.replace digest now' record := by
  unfold State.replace
  cases hprev : s.submissions[record.replayKey]? with
  | none =>
    dsimp only
    rw [index_of_accepted digest now now' _ h]
  | some previous =>
    dsimp only
    rw [index_of_accepted digest now now' _ h, unindex_of_accepted now now' _ (hs _ _ hprev)]

variable {r : LogRecord}

theorem Accepted.replay (hs : s.Accepted) (h : r.payload.acceptedAt.isSome) :
    (s.replay digest now r).Accepted := by
  intro key record hrec
  unfold State.replay State.applyWithSenderAssignment at hrec
  rw [getElem?_submissions_replace, submissions_issue, submissions_prepareSenderIdentity] at hrec
  split_ifs at hrec with hkey
  · cases hrec
    exact h
  · exact hs key record hrec

theorem replay_of_accepted (now now' : ℤ) (hs : s.Accepted) (h : r.payload.acceptedAt.isSome) :
    s.replay digest now r = s.replay digest now' r := by
  have hprepared : ((s.prepareSenderIdentity r.incarnation r.payload).issue r.payload.entry).Accepted := by
    intro key record hrec
    rw [submissions_issue, submissions_prepareSenderIdentity] at hrec
    exact hs key record hrec
  exact replace_of_accepted digest now now' hprepared h

theorem accepted_default : (default : State).Accepted := by
  intro key record h
  cases h

variable {records : List LogRecord}

theorem accepted_foldl_replay (hs : s.Accepted) (h : ∀ r ∈ records, r.payload.acceptedAt.isSome) :
    (records.foldl (State.replay digest now) s).Accepted :=
  foldlRecOn records _ hs fun _ hs r hr => Accepted.replay digest hs (h r hr)

theorem foldl_replay_of_accepted (now now' : ℤ) (hs : s.Accepted)
    (h : ∀ r ∈ records, r.payload.acceptedAt.isSome) :
    records.foldl (State.replay digest now) s = records.foldl (State.replay digest now') s := by
  induction records generalizing s with
  | nil => rw [foldl_nil, foldl_nil]
  | cons r records ih =>
    have hr := h r (.head _)
    have hnext : (s.replay digest now' r).Accepted := Accepted.replay digest hs hr
    have hrest := ih hnext fun r' hr' => h r' (.tail _ hr')
    rw [foldl_cons, foldl_cons, replay_of_accepted digest now now' hs hr, hrest]

end Ramflux.RouterWal
