import Ramflux.Lib.OrdMap

/-! Shared custody of one item: holds are counted, owners listed, and the item is cleaned up when the
last of them leaves, unless it is known to be delivered. -/
namespace Ramflux
open List Option

/-- `holds` is `none` while nobody has the item. -/
@[ext]
structure Custody (α : Type*) [Ord α] where
  holds : Option ℕ
  owners : Option (OrdSet α)
  delivered : Bool
  cleanups : ℕ

inductive CustodyOp (α : Type*)
  /-- A hold on an item that may have been delivered before anyone held it. -/
  | refer (known : Bool)
  | hold
  | own (a : α)
  | attest
  | release
  /-- An owner leaves, having delivered the item or not. -/
  | give (a : α) (delivered : Bool)

namespace Custody
variable {α : Type*} [Ord α] [Std.TransOrd α]

def exec (c : Custody α) : CustodyOp α → Custody α
  | .refer known => { c with
      holds := some (c.holds.getD 0 + 1)
      delivered := c.delivered || (known && c.holds.isNone) }
  | .hold => { c with holds := some (c.holds.getD 0 + 1) }
  | .own a => { c with
      holds := some (c.holds.getD 0)
      owners := some ((c.owners.getD ∅).insert a) }
  | .attest => if c.owners.isSome ∨ c.holds.isSome then { c with delivered := true } else c
  | .release =>
    if c.owners.isNone ∧ c.holds.getD 0 ≤ 1 then
      { c with
        holds := none
        delivered := false
        cleanups := if c.holds.isSome ∧ c.delivered = false then c.cleanups + 1 else c.cleanups }
    else { c with holds := c.holds.map (· - 1) }
  | .give a delivered =>
    match c.owners with
    | none => c
    | some owners =>
      if (owners.erase a).isEmpty then
        { holds := if c.holds.getD 0 = 0 then none else c.holds
          owners := none
          delivered := if c.holds.getD 0 = 0 then false else c.delivered || delivered
          cleanups := if delivered = false ∧ c.delivered = false then c.cleanups + 1
            else c.cleanups }
      else { c with owners := some (owners.erase a), delivered := c.delivered || delivered }

def run (c : Custody α) (ops : List (CustodyOp α)) : Custody α := ops.foldl exec c

/-- Only what is held has owners or is known to be delivered; who has custody holds or owns. -/
structure Ok (c : Custody α) : Prop where
  owned : c.owners.isSome → c.holds.isSome
  known : c.delivered = true → c.holds.isSome
  held : c.holds = some 0 → c.owners.isSome
  owners : ∀ owners, c.owners = some owners → owners.isEmpty = false

def Owns (c : Custody α) (a : α) : Prop := ∃ owners, c.owners = some owners ∧ a ∈ owners

variable {c : Custody α}

theorem exec_release_of_last (h : c.owners.isNone ∧ c.holds.getD 0 ≤ 1) :
    c.exec .release = { c with
      holds := none
      delivered := false
      cleanups := if c.holds.isSome ∧ c.delivered = false then c.cleanups + 1 else c.cleanups } :=
  if_pos h

theorem exec_release_of_more (h : ¬ (c.owners.isNone ∧ c.holds.getD 0 ≤ 1)) :
    c.exec .release = { c with holds := c.holds.map (· - 1) } :=
  if_neg h

section
variable {owners : OrdSet α} (hown : c.owners = some owners) {a : α} {delivered : Bool}
include hown

theorem exec_give_of_last (hlast : (owners.erase a).isEmpty = true) :
    c.exec (.give a delivered) =
      { holds := if c.holds.getD 0 = 0 then none else c.holds
        owners := none
        delivered := if c.holds.getD 0 = 0 then false else c.delivered || delivered
        cleanups := if delivered = false ∧ c.delivered = false then c.cleanups + 1
          else c.cleanups } := by
  unfold exec
  rw [hown]
  exact if_pos hlast

theorem exec_give_of_more (hmore : (owners.erase a).isEmpty = false) :
    c.exec (.give a delivered) =
      { c with owners := some (owners.erase a), delivered := c.delivered || delivered } := by
  unfold exec
  rw [hown]
  exact if_neg (by simpa using hmore)

end

theorem exec_give_of_none (hown : c.owners = none) (a : α) (delivered : Bool) :
    c.exec (.give a delivered) = c := by
  unfold exec
  rw [hown]

theorem delivered_exec_refer (known : Bool) :
    (c.exec (.refer known)).delivered = (c.delivered || (known && c.holds.isNone)) := rfl

theorem run_cons (op : CustodyOp α) (ops : List (CustodyOp α)) :
    c.run (op :: ops) = (c.exec op).run ops := rfl

theorem run_singleton (op : CustodyOp α) : c.run [op] = c.exec op := rfl

theorem run_append (ops ops' : List (CustodyOp α)) : c.run (ops ++ ops') = (c.run ops).run ops' :=
  foldl_append

theorem Ok.isSome_holds_iff (h : c.Ok) : c.holds.isSome ↔ 0 < c.holds.getD 0 ∨ ∃ a, c.Owns a := by
  constructor
  · intro hsome
    obtain ⟨count, hcount⟩ := isSome_iff_exists.mp hsome
    rcases Nat.eq_zero_or_pos count with rfl | hpos
    · obtain ⟨owners, howners⟩ := isSome_iff_exists.mp (h.held hcount)
      have hne := h.owners owners howners
      rw [Bool.eq_false_iff, ne_eq, Std.ExtTreeSet.isEmpty_iff,
        Std.ExtTreeSet.eq_empty_iff_forall_not_mem, not_forall_not] at hne
      obtain ⟨a, ha⟩ := hne
      exact .inr ⟨a, owners, howners, ha⟩
    · rw [hcount]
      exact .inl hpos
  · rintro (hpos | ⟨a, owners, howners, -⟩)
    · cases hholds : c.holds with
      | none => simp [hholds] at hpos
      | some count => rfl
    · exact h.owned (by rw [howners]; rfl)

/-- Operations that give nobody custody. -/
def Departs : CustodyOp α → Prop
  | .attest | .release | .give _ _ => True
  | _ => False

/-- Operations that show a delivery. -/
def Shows : CustodyOp α → Prop
  | .attest | .refer true | .give _ true => True
  | _ => False

omit [Std.TransOrd α] in
theorem Ok.of_none (h : c.Ok) (hnone : c.holds = none) : c.owners = none ∧ c.delivered = false := by
  constructor
  · by_contra hsome
    have hheld := h.owned (by simpa [isSome_iff_ne_none] using hsome)
    simp [hnone] at hheld
  · by_contra htrue
    have hheld := h.known (by simpa using htrue)
    simp [hnone] at hheld

variable {op : CustodyOp α}

theorem Ok.exec_of_none (h : c.Ok) (hnone : c.holds = none) (hop : Departs op) : c.exec op = c := by
  obtain ⟨howners, hdeliv⟩ := h.of_none hnone
  fun_cases exec c op with
  | case1 | case2 | case3 => exact hop.elim
  | case5 | case8 => rfl
  | case6 hlast =>
    cases c
    simp_all
  | _ => simp_all

/-- A delivered item is not cleaned up, and known as delivered while anyone has it. -/
theorem exec_of_delivered (hdeliv : c.delivered = true) (op : CustodyOp α) :
    ((c.exec op).delivered = true ∨ (c.exec op).holds = none) ∧ (c.exec op).cleanups = c.cleanups := by
  fun_cases exec c op with
  | case9 a delivered owners hown hlast =>
    by_cases hcount : c.holds.getD 0 = 0 <;> simp [hcount, hdeliv]
  | _ => simp [hdeliv]

variable {ops : List (CustodyOp α)}

theorem cleanups_le_exec (c : Custody α) (op : CustodyOp α) : c.cleanups ≤ (c.exec op).cleanups := by
  fun_cases exec c op with
  -- Only the last to leave can cause a cleanup.
  | case6 hlast | case9 a delivered owners hown hlast =>
    dsimp only
    split_ifs <;> omega
  | _ => exact le_rfl

theorem cleanups_le_run (c : Custody α) (ops : List (CustodyOp α)) :
    c.cleanups ≤ (c.run ops).cleanups :=
  foldlRecOn ops exec (motive := (c.cleanups ≤ cleanups ·)) le_rfl fun c' h op _ => h.trans (c'.cleanups_le_exec op)

theorem shows_of_exec (hbefore : c.delivered = false)
    (hafter : (c.exec op).delivered = true) : Shows op := by
  revert hafter
  fun_cases exec c op with
  | case1 known | case8 a known | case9 a known | case10 a known =>
    cases known <;> simp [hbefore, Shows]
  | case4 | case5 => exact fun _ => trivial
  | _ => simp [hbefore]

theorem shows_of_run (hbefore : c.delivered = false)
    (hafter : (c.run ops).delivered = true) : ∃ op ∈ ops, Shows op := by
  induction ops generalizing c with
  | nil =>
    rw [show c.run [] = c from rfl, hbefore] at hafter
    exact absurd hafter (by decide)
  | cons op ops ih =>
    cases hstep : (c.exec op).delivered with
    | true => exact ⟨op, by simp, shows_of_exec hbefore hstep⟩
    | false =>
      obtain ⟨op', hop', hshows⟩ := ih hstep hafter
      exact ⟨op', by simp [hop'], hshows⟩

/-- Custody that ends without a delivery ends with a cleanup. -/
theorem cleanups_of_end (hheld : c.holds.isSome)
    (hbefore : c.delivered = false) (hops : ∀ op ∈ ops, ¬ Shows op) (hend : (c.run ops).holds = none) :
    c.cleanups < (c.run ops).cleanups := by
  induction ops generalizing c with
  | nil =>
    rw [show c.run [] = c from rfl] at hend
    simp [hend] at hheld
  | cons op ops ih =>
    obtain ⟨hop, hrest⟩ := forall_mem_cons.mp hops
    have hstep : (c.exec op).delivered = false := by
      by_contra htrue
      exact hop (shows_of_exec hbefore (by simpa using htrue))
    cases hafter : (c.exec op).holds with
    | some count =>
      exact (c.cleanups_le_exec op).trans_lt (ih (by simp [hafter]) hstep hrest hend)
    | none =>
      -- This operation ended the custody.
      refine lt_of_lt_of_le ?_ (cleanups_le_run (c.exec op) ops)
      have hne : c.holds ≠ none := isSome_iff_ne_none.mp hheld
      revert hafter
      fun_cases exec c op with
      | case4 => exact (hop trivial).elim
      | case6 hlast => simp [hheld, hbefore]
      | case9 a delivered owners hown hlast =>
        cases delivered with
        | true => exact (hop trivial).elim
        | false => simp [hbefore]
      | _ => simp [hne]

theorem holds_exec (c : Custody α) (op : CustodyOp α) : (c.exec op).holds.getD 0 = match op with
    | .refer _ | .hold => c.holds.getD 0 + 1
    | .release => c.holds.getD 0 - 1
    | _ => c.holds.getD 0 := by
  fun_cases exec c op with
  | case6 hlast => exact (Nat.sub_eq_zero_of_le hlast.2).symm
  | case7 hmore => cases hholds : c.holds <;> simp
  | case9 a delivered owners hown hlast => by_cases hcount : c.holds.getD 0 = 0 <;> simp [hcount]
  | _ => rfl

theorem holds_run_replicate_release (c : Custody α) (n : ℕ) :
    (c.run (List.replicate n .release)).holds.getD 0 = c.holds.getD 0 - n := by
  induction n generalizing c with
  | zero => rfl
  | succ n ih =>
    rw [replicate_succ, run_cons, ih, holds_exec]
    dsimp only
    omega

theorem holds_run_of_ne (c : Custody α) (hops : ∀ op ∈ ops, op ≠ .hold ∧ op ≠ .release ∧ ∀ known, op ≠ .refer known) :
    (c.run ops).holds.getD 0 = c.holds.getD 0 := by
  induction ops generalizing c with
  | nil => rfl
  | cons op ops ih =>
    obtain ⟨⟨hhold, hrelease, hrefer⟩, hrest⟩ := forall_mem_cons.mp hops
    rw [run_cons, ih _ hrest, holds_exec]
    cases op with
    | refer known => exact absurd rfl (hrefer known)
    | hold => exact absurd rfl hhold
    | release => exact absurd rfl hrelease
    | _ => rfl

theorem owners_exec (hown : ∀ a, op ≠ .own a)
    (hgive : ∀ a delivered, op ≠ .give a delivered) : (c.exec op).owners = c.owners := by
  fun_cases exec c op with
  | case3 a => exact absurd rfl (hown a)
  | case9 a delivered | case10 a delivered => exact absurd rfl (hgive a delivered)
  | _ => rfl

theorem owners_run (hown : ∀ a, .own a ∉ ops)
    (hgive : ∀ a delivered, .give a delivered ∉ ops) : (c.run ops).owners = c.owners := by
  induction ops generalizing c with
  | nil => rfl
  | cons op ops ih =>
    rw [run_cons, ih (fun a hmem => hown a (by simp [hmem]))
      fun a delivered hmem => hgive a delivered (by simp [hmem])]
    apply owners_exec
    · rintro a rfl
      exact hown a (by simp)
    · rintro a delivered rfl
      exact hgive a delivered (by simp)

/-- Newcomers leave alone what is known of a delivery, and clean up nothing. -/
theorem run_of_not_departs (hops : ∀ op ∈ ops, ¬ Departs op) :
    (c.delivered = true → (c.run ops).delivered = true) ∧ (c.run ops).cleanups = c.cleanups ∧
      (c.holds.isSome → (c.run ops).holds.isSome) := by
  induction ops generalizing c with
  | nil => exact ⟨fun h => h, rfl, fun h => h⟩
  | cons op ops ih =>
    obtain ⟨hop, hrest⟩ := forall_mem_cons.mp hops
    obtain ⟨hdeliv, hcleanups, hheld⟩ := ih (c := c.exec op) hrest
    have hstep : (c.delivered = true → (c.exec op).delivered = true) ∧
        (c.exec op).cleanups = c.cleanups ∧ (c.exec op).holds.isSome := by
      cases op with
      | refer known => simp +contextual [exec]
      | hold | own a => simp [exec]
      | _ => exact (hop trivial).elim
    exact ⟨fun h => hdeliv (hstep.1 h), hcleanups.trans hstep.2.1, fun _ => hheld hstep.2.2⟩

variable [Std.LawfulEqOrd α]

theorem isEmpty_insert_eq_false (owners : OrdSet α) (a : α) : (owners.insert a).isEmpty = false := by
  rw [Bool.eq_false_iff, ne_eq, Std.ExtTreeSet.isEmpty_iff]
  intro hempty
  have hmem : a ∈ owners.insert a := OrdSet.mem_insert_iff.mpr (.inl rfl)
  simp [hempty] at hmem

theorem Ok.exec (h : c.Ok) (op : CustodyOp α) : (c.exec op).Ok := by
  obtain ⟨howned, hknown, hheld, howners⟩ := h
  fun_cases Custody.exec c op with
  | case1 known | case2 => constructor <;> simp_all
  | case3 a =>
    refine ⟨by simp, by simp, by simp, ?_⟩
    intro owners heq
    rw [← some.inj heq]
    exact isEmpty_insert_eq_false _ a
  | case4 hany => exact ⟨howned, fun _ => hany.elim howned fun hh => hh, hheld, howners⟩
  | case5 | case8 => exact ⟨howned, hknown, hheld, howners⟩
  | case6 hlast => constructor <;> simp_all
  | case7 hmore =>
    refine ⟨by simpa using howned, by simpa using hknown, ?_, howners⟩
    intro hzero
    by_contra hnone
    apply hmore
    obtain ⟨count, hcount, hone⟩ := map_eq_some_iff.mp hzero
    rw [hcount]
    exact ⟨by simpa using hnone, by simp only [getD_some]; omega⟩
  | case9 a delivered owners hown hlast =>
    by_cases hcount : c.holds.getD 0 = 0
    · constructor <;> simp [hcount]
    · rw [if_neg hcount, if_neg hcount]
      refine ⟨by simp, fun _ => howned (by simp [hown]), ?_, by simp⟩
      intro hzero
      have hzero : c.holds = some 0 := hzero
      simp [hzero] at hcount
  | case10 a delivered owners hown hmore =>
    refine ⟨fun _ => howned (by simp [hown]), fun _ => howned (by simp [hown]), by simp, ?_⟩
    intro owners' heq
    rw [← some.inj heq]
    simpa using hmore

theorem Ok.run (h : c.Ok) (ops : List (CustodyOp α)) : (c.run ops).Ok :=
  foldlRecOn ops Custody.exec h fun _ h op _ => h.exec op

theorem Ok.run_of_delivered (h : c.Ok) (hdeliv : c.delivered = true ∨ c.holds = none)
    (hops : ∀ op ∈ ops, Departs op) : ((c.run ops).delivered = true ∨ (c.run ops).holds = none) ∧
      (c.run ops).cleanups = c.cleanups := by
  induction ops generalizing c with
  | nil => exact ⟨hdeliv, rfl⟩
  | cons op ops ih =>
    obtain ⟨hop, hrest⟩ := forall_mem_cons.mp hops
    rw [run_cons]
    rcases hdeliv with hdeliv | hnone
    · obtain ⟨hstep, hsame⟩ := exec_of_delivered hdeliv op
      rw [← hsame]
      exact ih (h.exec op) hstep hrest
    · rw [h.exec_of_none hnone hop]
      exact ih h (.inr hnone) hrest

variable {b : α}

theorem owns_exec_give {a : α} {delivered : Bool} :
    (c.exec (.give a delivered)).Owns b ↔ c.Owns b ∧ b ≠ a := by
  unfold Owns
  cases hown : c.owners with
  | none => simp [exec_give_of_none hown, hown]
  | some owners =>
    cases hlast : (owners.erase a).isEmpty with
    | true =>
      have hempty := Std.ExtTreeSet.isEmpty_iff.mp hlast
      rw [exec_give_of_last hown hlast]
      constructor
      · rintro ⟨owners', heq, -⟩
        exact absurd heq (by simp)
      · rintro ⟨⟨owners', heq, hmem⟩, hne⟩
        cases heq
        have hin := OrdSet.mem_erase_iff.mpr ⟨hne, hmem⟩
        simp [hempty] at hin
    | false =>
      rw [exec_give_of_more hown hlast]
      simp only [Option.some.injEq, exists_eq_left', OrdSet.mem_erase_iff]
      exact and_comm

theorem owns_exec_own {a : α} : (c.exec (.own a)).Owns b ↔ b = a ∨ c.Owns b := by
  unfold Owns
  cases hown : c.owners with
  | none =>
    simp only [exec, hown, getD_none, Option.some.injEq, exists_eq_left', OrdSet.mem_insert_iff]
    simp
  | some owners =>
    simp only [exec, hown, getD_some, Option.some.injEq, exists_eq_left', OrdSet.mem_insert_iff]

theorem owns_run_own (hops : ∀ op ∈ ops, ∃ a, op = .own a) :
    (c.run ops).Owns b ↔ .own b ∈ ops ∨ c.Owns b := by
  induction ops generalizing c with
  | nil => simp [run]
  | cons op ops ih =>
    obtain ⟨⟨a, rfl⟩, hrest⟩ := forall_mem_cons.mp hops
    rw [run_cons, ih hrest, owns_exec_own]
    simp only [mem_cons, CustodyOp.own.injEq]
    tauto

theorem owns_run_give (hops : ∀ op ∈ ops, ∃ a delivered, op = .give a delivered) :
    (c.run ops).Owns b ↔ c.Owns b ∧ ∀ delivered, .give b delivered ∉ ops := by
  induction ops generalizing c with
  | nil => simp [run]
  | cons op ops ih =>
    obtain ⟨⟨a, delivered, rfl⟩, hrest⟩ := forall_mem_cons.mp hops
    rw [run_cons, ih hrest, owns_exec_give]
    simp only [mem_cons, CustodyOp.give.injEq, not_or]
    constructor
    · rintro ⟨⟨howns, hne⟩, hrest⟩
      exact ⟨howns, fun delivered => ⟨fun heq => hne heq.1, hrest delivered⟩⟩
    · rintro ⟨howns, hrest⟩
      exact ⟨⟨howns, fun heq => (hrest delivered).1 ⟨heq, rfl⟩⟩, fun delivered => (hrest delivered).2⟩

omit [Std.LawfulEqOrd α] in
theorem exec_give_true {a : α} (howns : c.Owns a) :
    ((c.exec (.give a true)).delivered = true ∨ (c.exec (.give a true)).holds = none) ∧
      (c.exec (.give a true)).cleanups = c.cleanups := by
  obtain ⟨owners, hown, -⟩ := howns
  cases hlast : (owners.erase a).isEmpty with
  | true =>
    rw [exec_give_of_last hown hlast]
    by_cases hcount : c.holds.getD 0 = 0 <;> simp [hcount]
  | false =>
    rw [exec_give_of_more hown hlast]
    simp

/-- Nothing is cleaned up as long as an owner stays, or leaves after a delivery. -/
theorem Ok.cleanups_of_owns (h : c.Ok) {a : α} (howns : c.Owns a)
    (hops : ∀ op ∈ ops, Departs op ∧ op ≠ .give a false) : (c.run ops).cleanups = c.cleanups := by
  induction ops generalizing c with
  | nil => rfl
  | cons op ops ih =>
    obtain ⟨⟨hdeparts, hne⟩, hrest⟩ := forall_mem_cons.mp hops
    obtain ⟨owners, hown, hmem⟩ := id howns
    rw [run_cons]
    cases op with
    | refer known | hold | own b => exact hdeparts.elim
    | attest =>
      have hexec : c.exec .attest = { c with delivered := true } := if_pos (by simp [hown])
      have hsame := ih (h.exec .attest) (by rw [hexec]; exact ⟨owners, hown, hmem⟩) hrest
      rw [hsame, hexec]
    | release =>
      have hexec := exec_release_of_more (c := c) (by simp [hown])
      have hsame := ih (h.exec .release) (by rw [hexec]; exact ⟨owners, hown, hmem⟩) hrest
      rw [hsame, hexec]
    | give b delivered =>
      by_cases heq : b = a
      · subst heq
        cases delivered with
        | true =>
          obtain ⟨hdeliv, hsame⟩ := exec_give_true howns
          rw [((h.exec _).run_of_delivered hdeliv fun op hop => (hrest op hop).1).2, hsame]
        | false => exact absurd rfl hne
      · have hmore : (owners.erase b).isEmpty = false := by
          rw [Bool.eq_false_iff, ne_eq, Std.ExtTreeSet.isEmpty_iff]
          intro hempty
          have hin := OrdSet.mem_erase_iff.mpr ⟨Ne.symm heq, hmem⟩
          simp [hempty] at hin
        have howns' : (c.exec (.give b delivered)).Owns a :=
          owns_exec_give.mpr ⟨howns, Ne.symm heq⟩
        rw [ih (h.exec _) howns' hrest, exec_give_of_more hown hmore]

theorem Ok.run_of_give_true (h : c.Ok) {a : α} (howns : c.Owns a)
    (hops : ∀ op ∈ ops, ∃ b delivered, op = .give b delivered) (htrue : .give a true ∈ ops)
    (hfalse : .give a false ∉ ops) : (c.run ops).delivered = true ∨ (c.run ops).holds = none := by
  induction ops generalizing c with
  | nil => exact absurd htrue not_mem_nil
  | cons op ops ih =>
    obtain ⟨⟨b, delivered, rfl⟩, hrest⟩ := forall_mem_cons.mp hops
    have hdeparts : ∀ op ∈ ops, Departs op := by
      intro op hop
      obtain ⟨b, delivered, rfl⟩ := hrest op hop
      trivial
    by_cases heq : b = a
    · subst heq
      cases delivered with
      | true => exact ((h.exec _).run_of_delivered (exec_give_true howns).1 hdeparts).1
      | false => exact absurd (by simp) hfalse
    · apply ih (h.exec _) (owns_exec_give.mpr ⟨howns, Ne.symm heq⟩) hrest
      · rcases mem_cons.mp htrue with hmem | hmem
        · exact absurd (CustodyOp.give.inj hmem).1.symm heq
        · exact hmem
      · exact fun hmem => hfalse (by simp [hmem])

theorem Ok.delivered_run_replicate_attest (h : c.Ok) {n : ℕ} (hpos : 0 < n)
    (hheld : (c.run (List.replicate n .attest)).holds ≠ none) :
    (c.run (List.replicate n .attest)).delivered = true := by
  obtain ⟨n, rfl⟩ : ∃ k, n = k + 1 := ⟨n - 1, by omega⟩
  have hdeparts : ∀ op ∈ List.replicate n (.attest : CustodyOp α), Departs op := by
    intro op hop
    rw [eq_of_mem_replicate hop]
    trivial
  apply (((h.exec .attest).run_of_delivered _ hdeparts).1).resolve_right hheld
  unfold Custody.exec
  dsimp only
  split_ifs with hany
  · exact .inl rfl
  · right
    rw [not_or] at hany
    simpa using hany.2

end Custody
end Ramflux
