import Mathlib.Tactic.Common
import QinglongCore.Base.Events
import QinglongCore.Rtl.Decode

/-!
# The discipline of the reservation

What LR, SC, AMO and traps mean for the reservation, told by what commits in each cycle and apart from how a core
keeps it.
-/

namespace QinglongCore.Isa

/-- An instruction that commits; `addr` is the word address of its access, `rdData` the value for `rd`. -/
structure Retired where
  trap : Bool
  insn : Word
  addr : BitVec 30
  rdData : Word

/-- What a cycle shows: the commit, the word address of an accepted store of an SC, and the reservation that the
cycle starts with. -/
structure ResvCycle where
  commit : Option Retired
  scStore : Option (BitVec 30)
  resvValid : Bool

/-- An LR links its word address; a trap, an SC or an AMO breaks the link. -/
inductive ResvEvent where
  | linked (a : BitVec 30)
  | broken
  deriving DecidableEq

def Retired.event (r : Retired) : Option ResvEvent :=
  if r.trap then some .broken
  else if Decode.isLr r.insn then some (.linked r.addr)
  else if Decode.isSc r.insn || Decode.isAmoRmw r.insn then some .broken
  else none

def ResvCycle.event (c : ResvCycle) : Option ResvEvent := c.commit.bind Retired.event

/-- The last event before cycle `t` is an LR of word `a` that has completed without a fault. -/
def LinkedAt (c : Nat → ResvCycle) (t : Nat) (a : BitVec 30) : Prop :=
  Events.latest (fun u => (c u).event) t = some (.linked a)

/-- An SC stores and writes 0 only under a link to its word, and a trap leaves no reservation. -/
structure ResvDisciplined (c : Nat → ResvCycle) : Prop where
  stores : ∀ t a, (c t).scStore = some a → LinkedAt c t a
  writes : ∀ t r, (c t).commit = some r → r.trap = false → Decode.isSc r.insn = true → r.rdData = 0 →
    LinkedAt c t r.addr
  traps : ∀ t r, (c t).commit = some r → r.trap = true → (c (t + 1)).resvValid = false

variable {c : Nat → ResvCycle} {t : Nat} {a : BitVec 30} {r : Retired}

theorem event_of_no_commit (h : (c t).commit = none) : (c t).event = none := by
  simp [ResvCycle.event, h]

theorem event_of_commit (h : (c t).commit = some r) : (c t).event = r.event := by
  simp [ResvCycle.event, h]

theorem linkedAt_keep (h : LinkedAt c t a) (he : (c t).event = none) : LinkedAt c (t + 1) a := by
  unfold LinkedAt
  rw [Events.latest_of_none he]
  exact h

theorem linkedAt_now (he : (c t).event = some (.linked a)) : LinkedAt c (t + 1) a := Events.latest_of_mark he

/-- The link goes back to a commit of an LR, and nothing that breaks it has committed since. -/
theorem linkedAt_iff : LinkedAt c t a ↔ ∃ l, l < t ∧ (c l).event = some (.linked a) ∧
    ∀ v, l < v → v < t → (c v).event = none :=
  Events.latest_eq_some

end QinglongCore.Isa
