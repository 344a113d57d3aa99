import Mathlib.Algebra.Order.BigOperators.Group.List
import Mathlib.Algebra.Order.Ring.Nat
import Ramflux.Lib.Fallible
import Ramflux.Lib.OrdCount
import Ramflux.Lib.Word

/-! Challenge issuance of the router: a window for every address and network, and a reservation for every
network with a live window. Instants are in nanoseconds. -/
namespace Ramflux.SourceBudget
open OrdMap List Fallible

def window : ℕ := 60 * 10 ^ 9
def bucketLimit : ℕ := 8192

/-- Challenges per minute, as checked when they are read. -/
structure CustodyIssuanceSettings where
  perIp : ℕ
  perPrefix : ℕ
  perNode : ℕ
  inRange : 1 ≤ perIp ∧ perNode ≤ 65536
  ordered : perIp ≤ perPrefix ∧ perPrefix ≤ perNode

namespace CustodyIssuanceSettings

def perIpName : String := "RAMFLUX_CUSTODY_CHALLENGES_PER_IP_PER_MINUTE"
def perPrefixName : String := "RAMFLUX_CUSTODY_CHALLENGES_PER_PREFIX_PER_MINUTE"
def perNodeName : String := "RAMFLUX_CUSTODY_CHALLENGES_PER_NODE_PER_MINUTE"

def default : CustodyIssuanceSettings := ⟨16, 32, 1024, by decide, by decide⟩

/-- An error is the text of the invalid configuration, for the first number out of range. -/
def new (perIp perPrefix perNode : ℕ) : Except String CustodyIssuanceSettings :=
  match h : [(perIpName, perIp), (perPrefixName, perPrefix), (perNodeName, perNode)].find?
      fun row => row.2 < 1 ∨ 65536 < row.2 with
  | some row => .error (row.1 ++ " must be an integer in 1..=65536")
  | none =>
    if ordered : perIp ≤ perPrefix ∧ perPrefix ≤ perNode then
      .ok ⟨perIp, perPrefix, perNode, by simp at h; omega, ordered⟩
    else .error (perIpName ++ " <= " ++ perPrefixName ++ " <= " ++ perNodeName ++ " is required")

/-- All settings, the default ones among them, pass the check. -/
theorem new_settings (settings : CustodyIssuanceSettings) :
    new settings.perIp settings.perPrefix settings.perNode = .ok settings := by
  obtain ⟨perIp, perPrefix, perNode, hrange, hordered⟩ := settings
  unfold new
  split
  · next row hfound =>
    have hout : row.2 < 1 ∨ 65536 < row.2 := by simpa using find?_some hfound
    have hmem := mem_of_find?_eq_some hfound
    simp only [mem_cons, not_mem_nil, or_false] at hmem
    obtain rfl | rfl | rfl := hmem
    all_goals
      omega
  · exact dif_pos hordered

end CustodyIssuanceSettings

inductive IpAddr
  | v4 (ip : UInt32)
  | v6 (ip : BitVec 128)

/-- Prefix length and network number. Whole addresses have length 32 or 128. -/
abbrev SourceKey := ℕ × ℕ

def SourceKey.IsAddress (key : SourceKey) : Prop := key.1 = 32 ∨ key.1 = 128
def SourceKey.IsShare (key : SourceKey) : Prop := key.1 = 24 ∨ key.1 = 48

instance (key : SourceKey) : Decidable key.IsAddress := inferInstanceAs (Decidable (_ ∨ _))
instance (key : SourceKey) : Decidable key.IsShare := inferInstanceAs (Decidable (_ ∨ _))

def v4Prefixes (ip : ℕ) : List SourceKey := [(32, ip), (24, ip / 2 ^ 8)]

def custodySourcePrefixes : IpAddr → List SourceKey
  | .v4 ip => v4Prefixes ip.toNat
  | .v6 ip =>
    -- IPv4-mapped addresses count as IPv4.
    if ip.toNat / 2 ^ 32 = 0xffff then v4Prefixes (ip.toNat % 2 ^ 32)
    else [(128, ip.toNat), (64, ip.toNat / 2 ^ 64), (48, ip.toNat / 2 ^ 80)]

structure Bucket where
  started : ℕ
  count : ℕ
  deriving DecidableEq

structure CustodySourceBudget where
  buckets : OrdMap SourceKey Bucket
  settings : CustodyIssuanceSettings

inductive RetryScope
  | preAuthSource
  | nodeCapacity
  deriving DecidableEq

structure RetryHint where
  scope : RetryScope
  retryAfterMs : ℕ
  deriving DecidableEq

inductive BudgetName
  | sourceIpRate
  | sourcePrefixRate
  | sourceGlobalRate
  | sourceBucket
  deriving DecidableEq

inductive CustodyAdmissionRefusal
  | invalidInput
  | busy (budget : BudgetName) (count limit : ℕ) (retry : RetryHint)
  deriving DecidableEq

def retry (scope : RetryScope) (started tick : ℕ) : RetryHint :=
  ⟨scope, max 1000 (min (min ((window - (tick - started)) / 10 ^ 6) u32Max) 3600000)⟩

section
variable (settings : CustodyIssuanceSettings) (buckets : OrdMap SourceKey Bucket) (tick : ℕ)

def countOf (key : SourceKey) : ℕ := (buckets[key]?.map (·.count)).getD 0

def checkKey (key : SourceKey) (n : ℕ) : Except CustodyAdmissionRefusal Unit :=
  let limit := if n = 0 then settings.perIp else settings.perPrefix
  refuseWhen (limit ≤ countOf buckets key)
    (.busy (if n = 0 then .sourceIpRate else .sourcePrefixRate) (countOf buckets key) limit
      (retry .preAuthSource ((buckets[key]?.map (·.started)).getD tick) tick))

def CustodyIssuanceSettings.reservation : ℕ := min settings.perNode 2

def reserved : ℕ :=
  ((buckets.toList.filter (·.1.IsShare)).map (max ·.2.count settings.reservation)).sum

def extra (incoming : ℕ) : ℕ :=
  if incoming = 0 then settings.reservation else if settings.reservation ≤ incoming then 1 else 0

def bump (buckets : OrdMap SourceKey Bucket) (key : SourceKey) : OrdMap SourceKey Bucket :=
  buckets.upsert key fun bucket =>
    { bucket.getD ⟨tick, 0⟩ with count := (bucket.getD ⟨tick, 0⟩).count + 1 }

/-- The source's `admit` over the buckets with a live window. -/
def admitLive (source : IpAddr) : Except CustodyAdmissionRefusal (OrdMap SourceKey Bucket) := do
  let keys := custodySourcePrefixes source
  keys.zipIdx.forM fun row => checkKey settings buckets tick row.1 row.2
  let share ← keys.getLast?.elim (.error .invalidInput) .ok
  let oldest := (buckets.toList.map (·.2.started)).min?.getD tick
  refuseWhen (settings.perNode < reserved settings buckets + extra settings (countOf buckets share))
    (.busy .sourceGlobalRate (reserved settings buckets) settings.perNode (retry .nodeCapacity oldest tick))
  refuseWhen (bucketLimit < buckets.size + (keys.filter (· ∉ buckets)).length)
    (.busy .sourceBucket buckets.size bucketLimit (retry .nodeCapacity oldest tick))
  return keys.foldl (bump tick) buckets

end

namespace CustodySourceBudget

def withSettings (settings : CustodyIssuanceSettings) : CustodySourceBudget := ⟨∅, settings⟩

def live (s : CustodySourceBudget) (tick : ℕ) : OrdMap SourceKey Bucket :=
  s.buckets.filter fun _ bucket => tick - bucket.started < window

def admitSource (s : CustodySourceBudget) (source : IpAddr) (tick : ℕ) :
    CustodySourceBudget × Except CustodyAdmissionRefusal Unit :=
  match admitLive s.settings (s.live tick) tick source with
  | .error refusal => ({ s with buckets := s.live tick }, .error refusal)
  | .ok buckets => ({ s with buckets }, .ok ())

def run (s : CustodySourceBudget) (calls : List (IpAddr × ℕ)) : CustodySourceBudget :=
  calls.foldl (fun s call => (s.admitSource call.1 call.2).1) s

end CustodySourceBudget

variable {settings : CustodyIssuanceSettings} {buckets : OrdMap SourceKey Bucket} {tick : ℕ}

/-- The first key is the address and the last one the share; all are different. -/
structure Tiered (keys rest : List SourceKey) (share : SourceKey) : Prop where
  eq : keys = rest ++ [share]
  share : share.IsShare
  rest : ∀ key ∈ rest, ¬ key.IsShare
  nodup : keys.Nodup
  address : ∀ row ∈ keys.zipIdx, row.2 = 0 ↔ row.1.IsAddress

theorem tiered_v4Prefixes (ip : ℕ) : Tiered (v4Prefixes ip) [(32, ip)] (24, ip / 2 ^ 8) := by
  constructor <;> simp [v4Prefixes, SourceKey.IsShare, SourceKey.IsAddress]

theorem exists_tiered (source : IpAddr) : ∃ rest share, Tiered (custodySourcePrefixes source) rest share := by
  cases source with
  | v4 ip => exact ⟨_, _, tiered_v4Prefixes _⟩
  | v6 ip =>
    simp only [custodySourcePrefixes]
    split_ifs
    · exact ⟨_, _, tiered_v4Prefixes _⟩
    · refine ⟨[(128, ip.toNat), (64, ip.toNat / 2 ^ 64)], (48, ip.toNat / 2 ^ 80), ?_⟩
      constructor <;> simp [SourceKey.IsShare, SourceKey.IsAddress]

theorem getElem?_bump (key a : SourceKey) : (bump tick buckets key)[a]? =
    if key = a then some ⟨(buckets[a]?.getD ⟨tick, 0⟩).started, countOf buckets a + 1⟩ else buckets[a]? := by
  unfold bump upsert countOf
  rw [getElem?_insert_eq]
  split_ifs with heq
  · subst heq
    cases buckets[key]? with
    | none | some bucket => rfl
  · rfl

theorem getElem?_foldl_bump {keys : List SourceKey} (hnodup : keys.Nodup) (a : SourceKey) :
    (keys.foldl (bump tick) buckets)[a]? = if a ∈ keys then
      some ⟨(buckets[a]?.getD ⟨tick, 0⟩).started, countOf buckets a + 1⟩ else buckets[a]? := by
  induction keys generalizing buckets with
  | nil => simp
  | cons key keys ih =>
    obtain ⟨hnew, hnodup⟩ := nodup_cons.mp hnodup
    rw [foldl_cons, ih hnodup]
    unfold countOf
    rw [getElem?_bump]
    by_cases heq : key = a
    · subst heq
      simp [hnew, countOf]
    · simp [heq, Ne.symm heq]

theorem reserved_of_perm {rest : OrdMap SourceKey Bucket} {key : SourceKey} {bucket : Bucket}
    (h : buckets.toList.Perm ((key, bucket) :: rest.toList)) : reserved settings buckets =
      (if key.IsShare then max bucket.count settings.reservation else 0) + reserved settings rest := by
  unfold reserved
  rw [((h.filter _).map _).sum_nat, filter_cons]
  by_cases hshare : key.IsShare
  · simp [hshare]
  · simp [hshare]

/-- Only the share's own bucket counts, and `extra` is what one more challenge adds to it. -/
theorem reserved_bump
    (hcounts : ∀ (key : SourceKey) bucket, buckets[key]? = some bucket → 0 < bucket.count) (key : SourceKey) :
    reserved settings (bump tick buckets key) = reserved settings buckets +
      if key.IsShare then extra settings (countOf buckets key) else 0 := by
  have hres : 0 < settings.reservation := by
    have := settings.inRange
    have := settings.ordered
    exact lt_min (by omega) (by decide)
  unfold bump upsert countOf extra
  rw [reserved_of_perm (toList_insert_perm buckets key _)]
  cases hget : buckets[key]? with
  | none =>
    rw [erase_eq_self buckets hget]
    by_cases hshare : key.IsShare
    · simp only [hshare, if_true, Option.map_none, Option.getD_none]
      omega
    · simp [hshare]
  | some bucket =>
    have hcount := hcounts key bucket hget
    rw [reserved_of_perm (toList_perm_cons_erase buckets hget)]
    by_cases hshare : key.IsShare
    · simp only [hshare, if_true, Option.map_some, Option.getD_some]
      split_ifs <;> omega
    · simp [hshare]

/-- Counts are within their limits, and the reservations within the node's. -/
structure Fits (settings : CustodyIssuanceSettings) (buckets : OrdMap SourceKey Bucket) : Prop where
  counts : ∀ (key : SourceKey) (bucket : Bucket), buckets[key]? = some bucket →
    0 < bucket.count ∧ bucket.count ≤ if key.IsAddress then settings.perIp else settings.perPrefix
  reserved : reserved settings buckets ≤ settings.perNode

theorem Fits.filter (h : Fits settings buckets) (p : SourceKey → Bucket → Bool) :
    Fits settings (buckets.filter p) where
  counts key bucket hget := by
    rw [getElem?_filter_eq, Option.filter_eq_some_iff] at hget
    exact h.counts key bucket hget.1
  reserved := by
    have hsub : (buckets.filter p).toList <+ buckets.toList := by
      rw [Std.ExtTreeMap.toList_filter]
      exact filter_sublist
    exact (((hsub.filter _).map _).sum_le_sum fun _ _ => Nat.zero_le _).trans h.reserved

variable {share : SourceKey} {s : CustodySourceBudget} {buckets' : OrdMap SourceKey Bucket}
  {source : IpAddr}

theorem admitLive_ok {rest : List SourceKey} (hkeys : Tiered (custodySourcePrefixes source) rest share)
    (h : admitLive settings buckets tick source = .ok buckets') :
    (∀ row ∈ (custodySourcePrefixes source).zipIdx,
      countOf buckets row.1 < if row.2 = 0 then settings.perIp else settings.perPrefix) ∧
    SourceBudget.reserved settings buckets + extra settings (countOf buckets share) ≤ settings.perNode ∧
      buckets' = (custodySourcePrefixes source).foldl (bump tick) buckets := by
  obtain ⟨_, hroom, h⟩ := bind_eq_ok.mp h
  obtain ⟨last, hlast, h⟩ := bind_eq_ok.mp h
  obtain ⟨hnode, h⟩ := not_refused h
  obtain ⟨-, h⟩ := not_refused h
  cases h
  rw [hkeys.eq, getLast?_concat] at hlast
  cases hlast
  refine ⟨?_, not_lt.mp hnode, rfl⟩
  intro row hrow
  exact not_le.mp (refuseWhen_eq_ok.mp (forM_eq_ok.mp hroom row hrow))

theorem Fits.admitLive (h : Fits settings buckets)
    (hcall : admitLive settings buckets tick source = .ok buckets') : Fits settings buckets' := by
  obtain ⟨rest, share, hkeys⟩ := exists_tiered source
  obtain ⟨hroom, hnode, rfl⟩ := admitLive_ok hkeys hcall
  constructor
  · intro key bucket hget
    rw [getElem?_foldl_bump hkeys.nodup] at hget
    split_ifs at hget with hmem
    · cases hget
      obtain ⟨n, hn⟩ := getElem?_of_mem hmem
      have hrow := mk_mem_zipIdx_iff_getElem?.mpr hn
      have hless := hroom (key, n) hrow
      simp only [hkeys.address (key, n) hrow] at hless
      exact ⟨Nat.succ_pos _, hless⟩
    · exact h.counts key bucket hget
  · -- The keys before the share leave the sum and the share's count alone.
    obtain ⟨hcounts, hsum, hcount⟩ := foldlRecOn (motive := fun m =>
        (∀ (key : SourceKey) (bucket : Bucket), m[key]? = some bucket → 0 < bucket.count) ∧
        SourceBudget.reserved settings m = SourceBudget.reserved settings buckets ∧
        countOf m share = countOf buckets share) rest (bump tick)
      ⟨fun key bucket hget => (h.counts key bucket hget).1, rfl, rfl⟩ (by
        rintro m ⟨hcounts, hsum, hcount⟩ key hkey
        refine ⟨?_, ?_, ?_⟩
        · intro a bucket hget
          rw [getElem?_bump] at hget
          split_ifs at hget
          · cases hget
            exact Nat.succ_pos _
          · exact hcounts a bucket hget
        · rw [reserved_bump hcounts, if_neg (hkeys.rest key hkey), hsum]
          rfl
        · unfold countOf at hcount ⊢
          rw [getElem?_bump, if_neg, hcount]
          rintro rfl
          exact hkeys.rest key hkey hkeys.share)
    rw [hkeys.eq, foldl_append]
    show SourceBudget.reserved settings (bump tick (rest.foldl (bump tick) buckets) share) ≤ _
    rw [reserved_bump hcounts, if_pos hkeys.share, hsum, hcount]
    exact hnode

namespace CustodySourceBudget

theorem admit_fits (h : Fits s.settings s.buckets) (source : IpAddr) :
    (s.admitSource source tick).1.settings = s.settings ∧
      Fits s.settings (s.admitSource source tick).1.buckets := by
  unfold admitSource
  split
  · exact ⟨rfl, h.filter _⟩
  · next hcall => exact ⟨rfl, (h.filter _).admitLive hcall⟩

theorem run_fits (calls : List (IpAddr × ℕ)) :
    ((withSettings settings).run calls).settings = settings ∧
      Fits settings ((withSettings settings).run calls).buckets := by
  refine foldlRecOn (motive := fun s : CustodySourceBudget => s.settings = settings ∧
    Fits settings s.buckets) calls _ ⟨rfl, ?_, ?_⟩ ?_
  · simp [withSettings]
  · exact Nat.zero_le _
  · rintro s ⟨rfl, hfits⟩ call -
    exact admit_fits hfits call.1

theorem admit_error {refusal : CustodyAdmissionRefusal}
    (h : (s.admitSource source tick).2 = .error refusal) :
    admitLive s.settings (s.live tick) tick source = .error refusal ∧
      (s.admitSource source tick).1.buckets = s.live tick := by
  unfold admitSource at h ⊢
  split at h
  · next hrefused =>
    cases h
    rw [hrefused]
    exact ⟨rfl, rfl⟩
  · cases h

theorem second_not_refused (h : Fits settings buckets) (hnode : 2 ≤ settings.perNode)
    (hshare : (custodySourcePrefixes source).getLast? = some share)
    (hcount : countOf buckets share = 1) {count limit : ℕ} {hint : RetryHint} :
    admitLive settings buckets tick source ≠ .error (.busy .sourceGlobalRate count limit hint) := by
  intro herror
  have hextra : extra settings 1 = 0 := by
    unfold extra CustodyIssuanceSettings.reservation
    rw [if_neg (by decide), if_neg (by omega)]
  have hroom := h.reserved
  rcases bind_eq_error.mp herror with hkey | ⟨_, -, herror⟩
  · obtain ⟨row, -, hrefused⟩ := exists_of_forM_eq_error hkey
    have hname := (refuseWhen_eq_error.mp hrefused).2
    split_ifs at hname
    · cases hname
    · cases hname
  rw [hshare] at herror
  rcases bind_eq_error.mp herror with hlast | ⟨last, hlast, herror⟩
  · cases hlast
  cases hlast
  rw [hcount, hextra] at herror
  rcases bind_eq_error.mp herror with hrate | ⟨_, -, herror⟩
  · have := (refuseWhen_eq_error.mp hrate).1
    omega
  rcases bind_eq_error.mp herror with hbucket | ⟨_, -, herror⟩
  · cases (refuseWhen_eq_error.mp hbucket).2
  · cases herror

/-- After any calls counts are within their limits and live shares' reservations within the node's; a
share's second challenge is not refused for the node's limit, and refused calls change no live bucket. -/
theorem budget_safe_fair (settings : CustodyIssuanceSettings) (calls : List (IpAddr × ℕ)) :
    let s := (withSettings settings).run calls
    (∀ (key : SourceKey) (bucket : Bucket), s.buckets[key]? = some bucket →
      bucket.count ≤ if key.IsAddress then settings.perIp else settings.perPrefix) ∧
    ∀ tick, reserved settings (s.live tick) ≤ settings.perNode ∧
      ∀ source,
        (2 ≤ settings.perNode → ∀ share, (custodySourcePrefixes source).getLast? = some share →
          countOf (s.live tick) share = 1 → ∀ count limit hint,
            (s.admitSource source tick).2 ≠ .error (.busy .sourceGlobalRate count limit hint)) ∧
        ∀ refusal, (s.admitSource source tick).2 = .error refusal →
          ∀ (key : SourceKey) (bucket : Bucket), tick - bucket.started < window →
            ((s.admitSource source tick).1.buckets[key]? = some bucket ↔ s.buckets[key]? = some bucket) := by
  obtain ⟨hsettings, hfits⟩ := @run_fits settings calls
  generalize (withSettings settings).run calls = s at hsettings hfits
  refine ⟨fun key bucket hget => (hfits.counts key bucket hget).2, ?_⟩
  intro tick
  have hlive : Fits settings (s.live tick) := hfits.filter _
  refine ⟨hlive.reserved, ?_⟩
  intro source
  constructor
  · intro hnode share hshare hcount count limit hint herror
    have hrefused := (admit_error herror).1
    rw [hsettings] at hrefused
    exact second_not_refused hlive hnode hshare hcount hrefused
  · intro refusal hrefused key bucket hrecent
    rw [(admit_error hrefused).2, live, getElem?_filter_eq, Option.filter_eq_some_iff]
    exact and_iff_left (decide_eq_true hrecent)

end CustodySourceBudget

end Ramflux.SourceBudget
