import Mathlib.Tactic.Common
import QinglongCore.Axi.MasterHandshake
import QinglongCore.Mmu.Lemmas.Forwarding
import QinglongCore.Multicycle.Lemmas.Commit
import QinglongCore.Multicycle.Lemmas.Fetch
import QinglongCore.Rtl.SocMulticycle
import QinglongCore.Soc.Lemmas.Arbiters

/-!
# Squashed fetches of the multicycle core

The core knows of one fetch in flight, while SRAM and AXI may both owe it an answer. What the fabric still owes to
an abandoned program counter is never latched as an instruction; its fault is not kept apart. With the translation of
fetches off, the MMU passes them on as they are, but for those that the PMP denies: these it answers itself.
-/

namespace QinglongCore.SocMulticycle

open CoreMulticycle (ifetchReqValid rspConsumable commit)
open Fabric (isSram isAxi)

variable {s : State} {i : In}

/-! ## The fetch port of the fabric -/

/-- The AXI master works for the fetch side, or shows it a response. -/
def ifPending (f : Fabric.State) : Prop :=
  f.inflightClient = .ifetch ∧ (f.master.fsm ≠ .idle ∨ f.master.rspValid = true)

/-- The response of the AXI master to the fetch side. -/
def ifAxiRsp (s : State) : Fabric.Rsp := Fabric.axiRsp s.fabric .ifetch

/-- The translation of fetches is off. -/
def Bare (s : State) : Prop := (ctx s).xlateIf = false

instance (s : State) : Decidable (Bare s) := inferInstanceAs (Decidable ((ctx s).xlateIf = false))

theorem Bare.xlate (h : Bare s) : (Mmu.ifAccess (ctx s)).xlate = false := h

/-- The PMP denies a fetch at the program counter. -/
def pmpDenies (s : State) : Bool := Pmp.fault (ctx s).pmp (ctx s).priv s.core.pc ⟨false, false, true⟩

/-- The MMU answers the request of this cycle itself. -/
def denied (s : State) (i : In) : Bool := ifetchReqValid s.core i.ext && pmpDenies s

theorem denied_of_passes (h : pmpDenies s = false) : denied s i = false := by rw [denied, h, Bool.and_false]

section
variable (hb : Bare s) (hp : s.mmu.ifs.pmpPending = false)
include hb

theorem muxed_bare (p : Mmu.Port) : s.mmu.ifs.muxed (ctx s) (Mmu.ifAccess (ctx s)) p = Mmu.Side.pass p p.req.addr := by
  rw [Mmu.Side.muxed, Mmu.Side.branch_bare_iff.mpr hb.xlate]

theorem ifReqAddr_eq : ifReqAddr s i = s.core.pc := by
  have hm : (s.mmu.ifs.muxed (ctx s) (Mmu.ifAccess (ctx s)) (mmuAsk s i).ifp).dsReq.addr = s.core.pc := by
    rw [muxed_bare hb]
    rfl
  show (s.mmu.ifs.out (ctx s) (Mmu.ifAccess (ctx s)) (mmuAsk s i).ifp).dsReq.addr = s.core.pc
  rw [Mmu.Side.out]
  split_ifs
  · exact hm
  · exact hm

include hp

theorem pmpKill_eq (p : Mmu.Port) (ha : p.req.addr = s.core.pc) :
    s.mmu.ifs.pmpKill (ctx s) (Mmu.ifAccess (ctx s)) p = (p.reqValid && pmpDenies s) := by
  rw [Mmu.Side.pmpKill, Mmu.Side.pmpKillComb, Mmu.Side.pmpAddr_bare hb.xlate, hp, ha, Bool.or_false]
  rfl

theorem ifReqValid_eq : ifReqValid s i = (ifetchReqValid s.core i.ext && !pmpDenies s) := by
  have hk := pmpKill_eq hb hp (mmuAsk s i).ifp rfl
  show (s.mmu.ifs.out (ctx s) (Mmu.ifAccess (ctx s)) (mmuAsk s i).ifp).dsReqValid = _
  rw [Mmu.Side.out, hk, muxed_bare hb]
  show (if (ifetchReqValid s.core i.ext && pmpDenies s) = true then _ else _ : Mmu.Out).dsReqValid = _
  cases hv : ifetchReqValid s.core i.ext <;> cases pmpDenies s <;> simp [Mmu.Side.pass, Mmu.Side.refuse, mmuAsk, hv]

/-- A denied request gets an access fault in the same cycle. -/
theorem ifOut_denied (h : denied s i = true) :
    (coreIn s i).ifetchRspValid = true ∧ (coreIn s i).ifetchRspFault = true ∧
      (coreIn s i).ifetchRspPagefault = false := by
  have hk : s.mmu.ifs.pmpKill (ctx s) (Mmu.ifAccess (ctx s)) (mmuAnswered s i).ifp = true :=
    (pmpKill_eq hb hp _ rfl).trans h
  obtain ⟨-, hv, hf, hg, -⟩ := Mmu.Side.out_of_kill hk
  exact ⟨hv, hf, hg⟩

/-- What is not denied gets the lines of the fabric. -/
theorem ifOut_passed (h : denied s i = false) :
    (coreIn s i).ifetchReqReady = Fabric.ifReqReady s.fabric (fabricIn s i) ∧
      (coreIn s i).ifetchRspValid = (ifRsp s i).valid ∧ (coreIn s i).ifetchRspData = (ifRsp s i).data ∧
      (coreIn s i).ifetchRspFault = (ifRsp s i).fault ∧ (coreIn s i).ifetchRspPagefault = false := by
  have hk : s.mmu.ifs.pmpKill (ctx s) (Mmu.ifAccess (ctx s)) (mmuAnswered s i).ifp = false :=
    (pmpKill_eq hb hp _ rfl).trans h
  have hbr : (s.mmu.ifs.branch (ctx s) (Mmu.ifAccess (ctx s)) (mmuAnswered s i).ifp).passes = true := by
    rw [Mmu.Side.branch_bare_iff.mpr hb.xlate]
    rfl
  obtain ⟨hr, hv, hd, hf, hg, -⟩ := Mmu.Side.out_of_passes hk hbr
  exact ⟨hr, hv, hd, hf, hg⟩

theorem ifRsp_valid (h : denied s i = false) :
    (coreIn s i).ifetchRspValid = (s.portA.rspValid || (ifAxiRsp s).valid || s.fabric.ifBadRspValid) :=
  (ifOut_passed hb hp h).2.1

theorem ifRsp_fault (h : denied s i = false) :
    (coreIn s i).ifetchRspFault = ((ifAxiRsp s).fault || s.fabric.ifBadRspValid) :=
  (ifOut_passed hb hp h).2.2.2.1

theorem ifRsp_data (h : denied s i = false) :
    (coreIn s i).ifetchRspData =
      if s.portA.rspValid then s.portA.rspRdata else if (ifAxiRsp s).valid then (ifAxiRsp s).data else 0 :=
  (ifOut_passed hb hp h).2.2.1

theorem ifRsp_pagefault : (coreIn s i).ifetchRspPagefault = false := by
  cases h : denied s i
  · exact (ifOut_passed hb hp h).2.2.2.2
  · exact (ifOut_denied hb hp h).2.2

end

theorem ifPending_of_rsp (h : (ifAxiRsp s).valid = true) : ifPending s.fabric := by
  simp only [ifAxiRsp, Fabric.axiRsp, Bool.and_eq_true, beq_iff_eq] at h
  exact ⟨h.2, .inr h.1⟩

/-- Where a fetch from `a` is answered: neither SRAM nor AXI. -/
def isBad (a : Word) : Bool := !isSram a && !isAxi a

theorem isBad_elim {a : Word} (h : isBad a = true) : isSram a = false ∧ isAxi a = false := by simpa [isBad] using h

theorem portA_step (hb : Bare s) : (step s i).portA.rspValid = (ifReqValid s i && isSram s.core.pc) := by
  show (ifReqValid s i && isSram (ifReqAddr s i)) = _
  rw [ifReqAddr_eq hb]

theorem badRsp_step (hb : Bare s) :
    (step s i).fabric.ifBadRspValid = (ifReqValid s i && isBad s.core.pc && !s.fabric.ifBadRspValid) := by
  show (ifReqValid s i && !isSram (ifReqAddr s i) && !isAxi (ifReqAddr s i) && !s.fabric.ifBadRspValid) = _
  rw [ifReqAddr_eq hb, isBad, Bool.and_assoc (ifReqValid s i)]

/-- Outside the AXI region the fetch side starts nothing there. -/
theorem ifPending_step (hb : Bare s) (hr' : Axi4Master.Rests s.fabric.master) (hx : isAxi s.core.pc = false)
    (h : ifPending (step s i).fabric) : ifPending s.fabric ∧ s.fabric.master.rspValid = false := by
  obtain ⟨hc, hm⟩ := h
  have hpick : Fabric.arbPickIf s.fabric (fabricIn s i) = false := by
    simp [Fabric.arbPickIf, Fabric.ifAxiReqValid, fabricIn, ifReqAddr_eq hb, hx]
  have hfired : Fabric.amFired s.fabric (fabricIn s i) = false := by
    cases hf : Fabric.amFired s.fabric (fabricIn s i)
    · rfl
    · simp only [step, Fabric.step, hf, hpick, if_true, Bool.false_eq_true, if_false] at hc
      split_ifs at hc
  have hbusy : s.fabric.master.fsm ≠ .idle := by
    intro hi
    have hs : (step s i).fabric.master = Axi4Master.settle s.fabric.master := by
      have h := Axi4Master.step_idle s.fabric.master (Fabric.amReq s.fabric (fabricIn s i)) i.axi hi
      have hno : ((Fabric.amReq s.fabric (fabricIn s i)).valid && Axi4Master.reqReady s.fabric.master) = false := hfired
      rw [hno] at h
      exact h
    rw [hs] at hm
    simp [Axi4Master.settle, hi] at hm
  have hsame : (step s i).fabric.inflightClient = s.fabric.inflightClient := by
    simp [step, Fabric.step, hfired]
  refine ⟨⟨hsame ▸ hc, .inl hbusy⟩, ?_⟩
  cases hr : s.fabric.master.rspValid
  · rfl
  · exact absurd (hr' (.inl hr)) hbusy

/-- A request of the fetch side to a bad address is taken at once. -/
theorem accept_of_bad (hb : Bare s) (hp : s.mmu.ifs.pmpPending = false) (hreq : ifReqValid s i = true)
    (hbad : isBad s.core.pc = true) : CoreMulticycle.ifetchAccept s.core (coreIn s i) = true := by
  rw [ifReqValid_eq hb hp, Bool.and_eq_true, Bool.not_eq_true'] at hreq
  have hready : (coreIn s i).ifetchReqReady = true := by
    rw [(ifOut_passed hb hp (denied_of_passes hreq.2)).1]
    simp [Fabric.ifReqReady, fabricIn, ifReqAddr_eq hb, isBad_elim hbad]
  simp only [CoreMulticycle.ifetchAccept, hready, Bool.and_true]
  exact hreq.1

/-! ## The invariant -/

/-- What the answers that are up have to do with the fetch in flight. -/
structure FetchInv (s : State) : Prop where
  tidy : CoreMulticycle.FetchTidy s.core
  rests : Axi4Master.Rests s.fabric.master
  pending : s.mmu.ifs.pmpPending = false
  portA : s.core.fetchInflight = true → s.portA.rspValid = true → isSram s.core.pc = true
  bad : s.core.fetchInflight = true → s.fabric.ifBadRspValid = true → isBad s.core.pc = true
  sram : s.core.fetchInflight = true → s.core.fetchSquash = false → pmpDenies s = false →
    isSram s.core.pc = true → s.portA.rspValid = true
  badWaits : s.core.fetchInflight = true → s.core.fetchSquash = false → pmpDenies s = false →
    isBad s.core.pc = true → s.fabric.ifBadRspValid = true ∨ ¬ ifPending s.fabric
  badAlone : s.core.fetchInflight = false → s.fabric.ifBadRspValid = true → ¬ ifPending s.fabric

theorem FetchInv.portA_silent (h : FetchInv s) (hi : s.core.fetchInflight = true) (hs : isSram s.core.pc = false) :
    s.portA.rspValid = false := by
  cases hp : s.portA.rspValid
  · rfl
  · rw [h.portA hi hp] at hs
    simp at hs

theorem FetchInv.bad_silent (h : FetchInv s) (hi : s.core.fetchInflight = true) (hb : isBad s.core.pc = false) :
    s.fabric.ifBadRspValid = false := by
  cases hp : s.fabric.ifBadRspValid
  · rfl
  · rw [h.bad hi hp] at hb
    simp at hb

theorem fetchInv_reset (resetPc : Word) (p : PowerOn) : FetchInv (reset resetPc p) := by
  constructor <;>
    simp [reset, CoreMulticycle.reset, Fabric.reset, Axi4Master.reset, Axi4Master.Rests, Mmu.reset, Mmu.Side.reset]
  constructor <;> simp

/-- A fetch in flight behind the edge, and not squashed, was requested or waited for in this cycle, and is kept. -/
theorem inflight_elim (h : CoreMulticycle.FetchTidy s.core) (hn : (step s i).core.fetchInflight = true)
    (hq : (step s i).core.fetchSquash = false) :
    ifetchReqValid s.core i.ext = true ∧ (step s i).core.pc = s.core.pc ∧
      (commit s.core (coreIn s i)).valid = false := by
  have hf : s.core.fsm = .fetch := by
    rcases CoreMulticycle.inflight_cases hn with ⟨-, ha⟩ | ⟨hi, -⟩
    · simp only [CoreMulticycle.ifetchAccept, Bool.and_eq_true] at ha
      exact (CoreMulticycle.request_elim ha.1).1
    · exact h.inflight hi
  have hirq : Csr.irqPending s.core.csr i.ext = false := by
    cases hirq : Csr.irqPending s.core.csr i.ext
    · rfl
    · rw [show (step s i).core.fetchSquash = true from CoreMulticycle.squash_of_irq (i := coreIn s i) hf hirq hn] at hq
      simp at hq
  have hreq : ifetchReqValid s.core i.ext = true := CoreMulticycle.request_intro hf hirq
  obtain ⟨hc, hpc, -⟩ := CoreMulticycle.fetch_kept (i := coreIn s i) rfl hreq (CoreMulticycle.not_consumable hn)
  exact ⟨hreq, hpc, hc⟩

/-- Without a commit the PMP decides as before. -/
theorem pmpDenies_of_quiet (hc : (commit s.core (coreIn s i)).valid = false) : pmpDenies (step s i) = pmpDenies s := by
  have hcsr : (step s i).core.csr = Csr.tick s.core.csr i.ext _ := CoreMulticycle.csr_of_quiet hc
  have hpc : (step s i).core.pc = s.core.pc := CoreMulticycle.pc_of_quiet hc
  rw [pmpDenies, ctx, hcsr, hpc]
  rfl

section
variable (hb : Bare s) (hp : s.mmu.ifs.pmpPending = false)
include hb hp

/-- A request that goes downstream is for the fetch that is in flight behind the edge, if there is one. -/
theorem request_kept (hreq : ifReqValid s i = true) (hn : (step s i).core.fetchInflight = true) :
    (step s i).core.pc = s.core.pc := by
  rw [ifReqValid_eq hb hp, Bool.and_eq_true] at hreq
  exact (CoreMulticycle.fetch_kept (i := coreIn s i) rfl hreq.1 (CoreMulticycle.not_consumable hn)).2.1

/-- A fetch in flight behind the edge that the PMP does not deny was requested downstream. -/
theorem downstream (hreq : ifetchReqValid s.core i.ext = true) (hd : pmpDenies s = false) :
    ifReqValid s i = true := by
  rw [ifReqValid_eq hb hp, hreq, hd]
  rfl

end

theorem fetchInv_step (hb : Bare s) (h : FetchInv s) : FetchInv (step s i) where
  tidy := CoreMulticycle.fetchTidy_step h.tidy
  rests := Axi4Master.rests_step _ _ _ h.rests
  pending := by
    -- the core takes every answer in its cycle
    show Mmu.Side.pmpPendingNext _ _ _ _ = false
    simp [Mmu.Side.pmpPendingNext, h.pending, mmuIn, mmuAnswered, mmuAsk, CoreMulticycle.ifetchRspReady]
  portA hn hp := by
    rw [portA_step hb, Bool.and_eq_true] at hp
    rw [request_kept hb h.pending hp.1 hn]
    exact hp.2
  bad hn hbad := by
    simp only [badRsp_step hb, Bool.and_eq_true] at hbad
    rw [request_kept hb h.pending hbad.1.1 hn]
    exact hbad.1.2
  sram hn hq hd hs := by
    obtain ⟨hreq, hpc, hc⟩ := inflight_elim h.tidy hn hq
    rw [pmpDenies_of_quiet hc] at hd
    rw [hpc] at hs
    rw [portA_step hb, downstream hb h.pending hreq hd, hs]
    rfl
  badWaits hn hq hd hbad := by
    obtain ⟨hreq, hpc, hc⟩ := inflight_elim h.tidy hn hq
    rw [pmpDenies_of_quiet hc] at hd
    rw [hpc] at hbad
    cases hold : s.fabric.ifBadRspValid
    · left
      rw [badRsp_step hb, downstream hb h.pending hreq hd, hbad, hold]
      rfl
    · right
      intro hp
      obtain ⟨hp', -⟩ := ifPending_step hb h.rests (isBad_elim hbad).2 hp
      rcases CoreMulticycle.inflight_cases hn with ⟨hi, -⟩ | ⟨-, hr⟩
      · exact h.badAlone hi hold hp'
      · simp [ifRsp_valid hb h.pending (denied_of_passes hd), hold] at hr
  badAlone hn hbad hp := by
    simp only [badRsp_step hb, Bool.and_eq_true, Bool.not_eq_true'] at hbad
    obtain ⟨⟨hreq, hbad⟩, hold⟩ := hbad
    have hx := isBad_elim hbad
    obtain ⟨-, hm⟩ := ifPending_step hb h.rests hx.2 hp
    -- the fetch in flight before has been answered, and only the AXI master can have answered it
    cases hi : s.core.fetchInflight
    · rw [show (step s i).core.fetchInflight = true from
        CoreMulticycle.inflight_of_accept hi (accept_of_bad hb h.pending hreq hbad)] at hn
      simp at hn
    · have hd : pmpDenies s = false := by
        rw [ifReqValid_eq hb h.pending, Bool.and_eq_true, Bool.not_eq_true'] at hreq
        exact hreq.2
      have hr : (coreIn s i).ifetchRspValid = false := by
        rw [ifRsp_valid hb h.pending (denied_of_passes hd), h.portA_silent hi hx.1, hold]
        simp [ifAxiRsp, Fabric.axiRsp, hm]
      have hn' : CoreMulticycle.fetchInflightNext s.core (coreIn s i) = false := hn
      simp [CoreMulticycle.fetchInflightNext, hi, hr] at hn'

/-! ## Answers along a run -/

section
variable (pc₀ : Word) (p : PowerOn) (inp : Nat → In)

/-- The commit port in cycle `t`. -/
def committed (t : Nat) : CoreMulticycle.Commit := commit (run pc₀ p inp t).core (coreIn (run pc₀ p inp t) (inp t))

/-- The fetch requested in cycle `u` is one of the program counter of cycle `t`, with no commit since. -/
structure Current (u t : Nat) : Prop where
  before : u < t
  requested : ifReqValid (run pc₀ p inp u) (inp u) = true
  pc : (run pc₀ p inp u).core.pc = (run pc₀ p inp t).core.pc
  kept : ∀ v, u ≤ v → v < t → (committed pc₀ p inp v).valid = false

/-- What goes into the AXI master in cycle `t`. -/
def masterIn (t : Nat) : Axi4Master.In where
  req := Fabric.amReq (run pc₀ p inp t).fabric (fabricIn (run pc₀ p inp t) (inp t))
  lines := (inp t).axi

/-- The request that the AXI master accepts in cycle `t` is one of the fetch side. -/
def axiAccepts (t : Nat) : Bool :=
  Axi4Master.accepted (masterIn pc₀ p inp) t &&
    Fabric.arbPickIf (run pc₀ p inp t).fabric (fabricIn (run pc₀ p inp t) (inp t))

/-- The answers of the fabric, word and fault, to the fetch of the program counter of cycle `t`. -/
inductive Answer (t : Nat) : Word → Bool → Prop
  | sram (u : Nat) (hc : Current pc₀ p inp u t) (hs : isSram (run pc₀ p inp t).core.pc = true) :
      Answer t ((run pc₀ p inp u).fabric.sram.mem (Fabric.bWordAddr (run pc₀ p inp t).core.pc)) false
  /-- The address beat of cycle `v` and the data beat of cycle `w` belong to the request accepted in cycle `a`. -/
  | axi (a v w : Nat) (hc : Current pc₀ p inp a t) (hx : isAxi (run pc₀ p inp t).core.pc = true)
      (ha : axiAccepts pc₀ p inp a = true) (hav : a < v) (hvw : v < w) (hwt : w + 1 = t)
      (har : Axi4Master.arFire (masterIn pc₀ p inp) v = true)
      (haddr : (run pc₀ p inp v).fabric.master.addr = (run pc₀ p inp t).core.pc)
      (hr : Axi4Master.rFire (masterIn pc₀ p inp) w = true) :
      Answer t (inp w).axi.rdata ((inp w).axi.rresp != 0)
  | bad (u : Nat) (hc : Current pc₀ p inp u t) (hb : isBad (run pc₀ p inp t).core.pc = true) : Answer t 0 true

/-- The word latched in cycle `t`, and the access fault taken in it, are an answer to the fetch of the program
counter. -/
structure FetchSoundAt (t : Nat) : Prop where
  latched : (run pc₀ p inp t).core.fsm = .fetch → (run pc₀ p inp (t + 1)).core.fsm = .exec →
    Answer pc₀ p inp t (run pc₀ p inp (t + 1)).core.instr false
  faulted : (run pc₀ p inp t).core.fsm = .fetch → (committed pc₀ p inp t).trap = true →
    (committed pc₀ p inp t).cause = CAUSE_INSN_ACCESS_FAULT → ∃ d, Answer pc₀ p inp t d true

end

variable {pc₀ : Word} {p : PowerOn} {inp : Nat → In} {t : Nat}

theorem run_succ (t : Nat) : run pc₀ p inp (t + 1) = step (run pc₀ p inp t) (inp t) := rfl

theorem fetchInv_run (hb : ∀ u < t, Bare (run pc₀ p inp u)) : FetchInv (run pc₀ p inp t) := by
  induction t with
  | zero => exact fetchInv_reset pc₀ p
  | succ t ih => exact fetchInv_step (hb t (Nat.lt_succ_self t)) (ih fun u hu => hb u (Nat.lt_succ_of_lt hu))

theorem master_run (t : Nat) : (run pc₀ p inp t).fabric.master = Axi4Master.run (masterIn pc₀ p inp) t := by
  induction t with
  | zero => rfl
  | succ t ih =>
      rw [Axi4Master.run_succ, ← ih]
      rfl

theorem current_now (hreq : ifReqValid (run pc₀ p inp t) (inp t) = true)
    (hpc : (run pc₀ p inp (t + 1)).core.pc = (run pc₀ p inp t).core.pc) (hc : (committed pc₀ p inp t).valid = false) :
    Current pc₀ p inp t (t + 1) where
  before := by omega
  requested := hreq
  pc := hpc.symm
  kept v htv hv := by
    obtain rfl : v = t := by omega
    exact hc

theorem current_succ {u : Nat} (h : Current pc₀ p inp u t)
    (hpc : (run pc₀ p inp (t + 1)).core.pc = (run pc₀ p inp t).core.pc) (hc : (committed pc₀ p inp t).valid = false) :
    Current pc₀ p inp u (t + 1) where
  before := by have := h.before; omega
  requested := h.requested
  pc := h.pc.trans hpc.symm
  kept v huv hv := by
    rcases Nat.lt_or_eq_of_le (Nat.le_of_lt_succ hv) with hlt | rfl
    · exact h.kept v huv hlt
    · exact hc

theorem pmpDenies_kept {u : Nat} (hut : u ≤ t)
    (hk : ∀ v, u ≤ v → v < t → (committed pc₀ p inp v).valid = false) :
    pmpDenies (run pc₀ p inp t) = pmpDenies (run pc₀ p inp u) := by
  induction t, hut using Nat.le_induction with
  | base => rfl
  | succ t hut ih =>
      rw [run_succ, pmpDenies_of_quiet (hk t hut (Nat.lt_succ_self t))]
      exact ih fun v huv hvt => hk v huv (Nat.lt_succ_of_lt hvt)

section
variable (hb : ∀ u < t, Bare (run pc₀ p inp u))
include hb

/-- The fetch in flight was requested in the cycle before, and is current. -/
theorem current_of_inflight (hi : (run pc₀ p inp t).core.fetchInflight = true)
    (hq : (run pc₀ p inp t).core.fetchSquash = false) (hd : pmpDenies (run pc₀ p inp t) = false) :
    ∃ u, u + 1 = t ∧ Current pc₀ p inp u t := by
  cases t with
  | zero => simp [run, reset, CoreMulticycle.reset] at hi
  | succ u =>
      have hinv : FetchInv (run pc₀ p inp u) := fetchInv_run fun v hv => hb v (Nat.lt_succ_of_lt hv)
      obtain ⟨hreq, hpc, hc⟩ := inflight_elim hinv.tidy hi hq
      rw [run_succ, pmpDenies_of_quiet hc] at hd
      exact ⟨u, rfl, current_now (downstream (hb u (Nat.lt_succ_self u)) hinv.pending hreq hd) hpc hc⟩

/-- What was requested downstream, and is current, the PMP does not deny. -/
theorem passes_of_current {u : Nat} (h : Current pc₀ p inp u t) : pmpDenies (run pc₀ p inp t) = false := by
  have hinv : FetchInv (run pc₀ p inp u) := fetchInv_run fun v hv => hb v (hv.trans h.before)
  have hreq := h.requested
  rw [ifReqValid_eq (hb u h.before) hinv.pending, Bool.and_eq_true, Bool.not_eq_true'] at hreq
  rw [pmpDenies_kept h.before.le h.kept]
  exact hreq.2

theorem passes_of_answer {d : Word} {f : Bool} (h : Answer pc₀ p inp t d f) :
    pmpDenies (run pc₀ p inp t) = false := by
  cases h with
  | sram u hc => exact passes_of_current hb hc
  | axi a v w hc => exact passes_of_current hb hc
  | bad u hc => exact passes_of_current hb hc

end

/-! ## Fetches over AXI -/

/-- The current fetch went to the AXI master in cycle `a`, which has not responded before cycle `t`. -/
structure Fetching (pc₀ : Word) (p : PowerOn) (inp : Nat → In) (a t : Nat) : Prop where
  current : Current pc₀ p inp a t
  accepts : axiAccepts pc₀ p inp a = true
  silent : ∀ v, a < v → v < t → Axi4Master.responds (masterIn pc₀ p inp) v = false
  client : (run pc₀ p inp t).fabric.inflightClient = .ifetch

theorem amFired_eq (t : Nat) :
    Fabric.amFired (run pc₀ p inp t).fabric (fabricIn (run pc₀ p inp t) (inp t)) =
      Axi4Master.accepted (masterIn pc₀ p inp) t := by
  simp [Fabric.amFired, Fabric.amReqReady, Axi4Master.accepted, masterIn, ← master_run]

/-- A fetch from the AXI region that is accepted downstream goes to the AXI master. -/
theorem accepts_of_accept (hb : Bare (run pc₀ p inp t)) (hp : (run pc₀ p inp t).mmu.ifs.pmpPending = false)
    (hd : pmpDenies (run pc₀ p inp t) = false) (hx : isAxi (run pc₀ p inp t).core.pc = true)
    (ha : CoreMulticycle.ifetchAccept (run pc₀ p inp t).core (coreIn (run pc₀ p inp t) (inp t)) = true) :
    axiAccepts pc₀ p inp t = true := by
  simp only [CoreMulticycle.ifetchAccept, Bool.and_eq_true] at ha
  have hs := Fabric.isAxi_not_isSram hx
  have hready := ha.2
  rw [(ifOut_passed hb hp (denied_of_passes hd)).1] at hready
  have haddr : (fabricIn (run pc₀ p inp t) (inp t)).ifReqAddr = (run pc₀ p inp t).core.pc := ifReqAddr_eq hb
  simp only [Fabric.ifReqReady, haddr, hs, hx, Bool.false_eq_true, if_false, if_true, Bool.and_eq_true] at hready
  obtain ⟨hpick, hm⟩ := hready
  rw [axiAccepts, ← amFired_eq, Fabric.amFired, Bool.and_eq_true, Bool.and_eq_true]
  refine ⟨⟨?_, hm⟩, hpick⟩
  have hv : Fabric.ifAxiReqValid (fabricIn (run pc₀ p inp t) (inp t)) = true := by
    rw [Fabric.ifAxiReqValid, haddr, hx, Bool.and_true]
    exact downstream hb hp ha.1 hd
  simp [Fabric.amReq, hv]

/-- The walker goes before the fetch side. -/
theorem accepts_elim (h : axiAccepts pc₀ p inp t = true) :
    Axi4Master.accepted (masterIn pc₀ p inp) t = true ∧
      Fabric.arbPickIf (run pc₀ p inp t).fabric (fabricIn (run pc₀ p inp t) (inp t)) = true ∧
      Fabric.arbPickPtwAx (fabricIn (run pc₀ p inp t) (inp t)) = false := by
  simp only [axiAccepts, Bool.and_eq_true] at h
  refine ⟨h.1, h.2, ?_⟩
  have hpick := h.2
  simp only [Fabric.arbPickIf, Bool.and_eq_true, Bool.not_eq_true'] at hpick
  exact hpick.1.1

theorem accepts_addr (hb : Bare (run pc₀ p inp t)) (h : axiAccepts pc₀ p inp t = true) :
    (masterIn pc₀ p inp t).req.addr = (run pc₀ p inp t).core.pc ∧ (masterIn pc₀ p inp t).req.wen = false := by
  obtain ⟨-, hpick, hptw⟩ := accepts_elim h
  simp only [masterIn, Fabric.amReq, hptw, hpick, Bool.false_eq_true, if_false, if_true]
  exact ⟨ifReqAddr_eq hb, trivial⟩

theorem client_of_accepts (h : axiAccepts pc₀ p inp t = true) :
    (run pc₀ p inp (t + 1)).fabric.inflightClient = .ifetch := by
  obtain ⟨ha, hpick, hptw⟩ := accepts_elim h
  rw [run_succ]
  simp only [step, Fabric.step, amFired_eq, ha, hptw, hpick]
  rfl

/-- The master is at the transfer of the fetch as long as it has not responded. -/
theorem underway_of_fetching {a : Nat} (h : Fetching pc₀ p inp a t)
    (hr : Axi4Master.responds (masterIn pc₀ p inp) t = false) : Axi4Master.Underway (masterIn pc₀ p inp) a t := by
  refine Axi4Master.underway_run (accepts_elim h.accepts).1 h.current.before fun v hav hvt => ?_
  rcases Nat.lt_or_eq_of_le hvt with hlt | rfl
  · exact h.silent v hav hlt
  · exact hr

theorem client_kept (hb : (Axi4Master.run (masterIn pc₀ p inp) t).fsm ≠ .idle) :
    (run pc₀ p inp (t + 1)).fabric.inflightClient = (run pc₀ p inp t).fabric.inflightClient := by
  rw [run_succ]
  simp [step, Fabric.step, amFired_eq, Axi4Master.accepted_of_busy hb]

theorem fetching_run (hb : ∀ u < t, Bare (run pc₀ p inp u)) (hi : (run pc₀ p inp t).core.fetchInflight = true)
    (hq : (run pc₀ p inp t).core.fetchSquash = false) (hd : pmpDenies (run pc₀ p inp t) = false)
    (hx : isAxi (run pc₀ p inp t).core.pc = true) : ∃ a, Fetching pc₀ p inp a t := by
  induction t with
  | zero => simp [run, reset, CoreMulticycle.reset] at hi
  | succ t ih =>
      have hbt := hb t (Nat.lt_succ_self t)
      have hb' : ∀ u < t, Bare (run pc₀ p inp u) := fun u hu => hb u (Nat.lt_succ_of_lt hu)
      have hinv : FetchInv (run pc₀ p inp t) := fetchInv_run hb'
      obtain ⟨hreq, hpc, hc⟩ := inflight_elim hinv.tidy hi hq
      rw [run_succ, hpc] at hx
      rw [run_succ, pmpDenies_of_quiet hc] at hd
      rcases CoreMulticycle.inflight_cases hi with ⟨-, ha⟩ | ⟨hi', hr⟩
      · -- the request has been accepted in this cycle
        have hacc := accepts_of_accept hbt hinv.pending hd hx ha
        exact ⟨t, current_now (downstream hbt hinv.pending hreq hd) hpc hc, hacc,
          fun v htv hv => absurd hv (by omega), client_of_accepts hacc⟩
      · -- the request has been accepted before, and the master has not responded
        have hq' : (run pc₀ p inp t).core.fetchSquash = false := by
          have hirq := (CoreMulticycle.request_elim hreq).2
          have hs := CoreMulticycle.squash_stays (s := (run pc₀ p inp t).core)
            (i := coreIn (run pc₀ p inp t) (inp t)) hirq hr
          exact hs.symm.trans hq
        obtain ⟨a, hf⟩ := ih hb' hi' hq' hd hx
        have hresp : Axi4Master.responds (masterIn pc₀ p inp) t = false := by
          rw [ifRsp_valid hbt hinv.pending (denied_of_passes hd)] at hr
          simp only [ifAxiRsp, Fabric.axiRsp, hf.client, Bool.or_eq_false_iff, beq_self_eq_true, Bool.and_true,
            master_run] at hr
          exact hr.1.2
        refine ⟨a, current_succ hf.current hpc hc, hf.accepts, fun v hav hv => ?_, ?_⟩
        · rcases Nat.lt_or_eq_of_le (Nat.le_of_lt_succ hv) with hlt | rfl
          · exact hf.silent v hav hlt
          · exact hresp
        · rw [client_kept (underway_of_fetching hf hresp).busy]
          exact hf.client

/-! ## The answer that is consumed -/

/-- The response of the master to the current fetch is the data beat of the cycle before. -/
theorem answer_of_fetching {a : Nat} (hb : ∀ u < t, Bare (run pc₀ p inp u)) (h : Fetching pc₀ p inp a t)
    (hx : isAxi (run pc₀ p inp t).core.pc = true) (hr : Axi4Master.responds (masterIn pc₀ p inp) t = true) :
    Answer pc₀ p inp t (run pc₀ p inp t).fabric.master.rspRdata (run pc₀ p inp t).fabric.master.rspFault := by
  obtain ⟨w, rfl⟩ : ∃ w, t = w + 1 := ⟨t - 1, by have := h.current.before; omega⟩
  have hacc := (accepts_elim h.accepts).1
  obtain ⟨haddr, hwen⟩ := accepts_addr (hb a h.current.before) h.accepts
  have haw : a < w := by
    rcases Nat.lt_or_eq_of_le (Nat.le_of_lt_succ h.current.before) with hlt | rfl
    · exact hlt
    · rw [(Axi4Master.underway_start hacc).silent] at hr
      simp at hr
  have under : ∀ v, a < v → v ≤ w → Axi4Master.Underway (masterIn pc₀ p inp) a v := fun v hav hvw =>
    Axi4Master.underway_run hacc hav fun x hax hxv => h.silent x hax (by omega)
  have hw := under w haw (le_refl w)
  have hidle : (Axi4Master.run (masterIn pc₀ p inp) (w + 1)).fsm = .idle := Axi4Master.rests_run _ _ (.inl hr)
  obtain ⟨-, -, hfault, hfire, hdata⟩ := Axi4Master.last_step (r := (masterIn pc₀ p inp w).req) hw.busy hidle
  rw [hw.side, hwen] at hfault hfire hdata
  have hrf : Axi4Master.rFire (masterIn pc₀ p inp) w = true := hfire
  have hreadR : (Axi4Master.run (masterIn pc₀ p inp) w).fsm = .readR := by
    simp only [Axi4Master.rFire, Axi4Master.rready, Bool.and_eq_true, beq_iff_eq] at hrf
    exact hrf.1
  have hcount : (Axi4Master.tally (masterIn pc₀ p inp) a w).ar = 1 := by
    rw [hw.tally]
    simp [Axi4Master.made, hreadR]
  obtain ⟨v, hav, hvw, har⟩ := Events.exists_of_count (p := Axi4Master.arFire (masterIn pc₀ p inp)) (a := a) (u := w)
    (by rw [show Events.count _ a w = 1 from hcount]; omega)
  have hlines : (run pc₀ p inp v).fabric.master.addr = (run pc₀ p inp (w + 1)).core.pc := by
    rw [master_run, (under v hav (by omega)).addr, haddr, h.current.pc]
  have hanswer : Answer pc₀ p inp (w + 1) (inp w).axi.rdata ((inp w).axi.rresp != 0) :=
    .axi a v w h.current hx h.accepts hav hvw rfl har hlines hrf
  rw [master_run, show (Axi4Master.run (masterIn pc₀ p inp) (w + 1)).rspRdata = (inp w).axi.rdata from hdata rfl,
    show (Axi4Master.run (masterIn pc₀ p inp) (w + 1)).rspFault = ((inp w).axi.rresp != 0) from hfault]
  exact hanswer

section
variable (hb : ∀ u ≤ t, Bare (run pc₀ p inp u)) (hi : (run pc₀ p inp t).core.fetchInflight = true)
  (hq : (run pc₀ p inp t).core.fetchSquash = false) (hd : pmpDenies (run pc₀ p inp t) = false)
  (hr : (coreIn (run pc₀ p inp t) (inp t)).ifetchRspValid = true)
include hb hi hq hd hr

theorem answer_axi (hx : isAxi (run pc₀ p inp t).core.pc = true) :
    Answer pc₀ p inp t (coreIn (run pc₀ p inp t) (inp t)).ifetchRspData
      (coreIn (run pc₀ p inp t) (inp t)).ifetchRspFault := by
  have hbt := hb t (le_refl t)
  have hinv : FetchInv (run pc₀ p inp t) := fetchInv_run fun u hu => hb u hu.le
  have hno := denied_of_passes (i := inp t) hd
  obtain ⟨a, hf⟩ := fetching_run (fun u hu => hb u hu.le) hi hq hd hx
  have hpa := hinv.portA_silent hi (Fabric.isAxi_not_isSram hx)
  have hbad := hinv.bad_silent hi (by simp [isBad, hx])
  have hresp : (run pc₀ p inp t).fabric.master.rspValid = true := by
    rw [ifRsp_valid hbt hinv.pending hno] at hr
    simp only [hpa, hbad, ifAxiRsp, Fabric.axiRsp, Bool.or_false, Bool.false_or, Bool.and_eq_true] at hr
    exact hr.1
  have hanswer := answer_of_fetching (fun u hu => hb u hu.le) hf hx
    (by rw [Axi4Master.responds, ← master_run]; exact hresp)
  rw [ifRsp_data hbt hinv.pending hno, ifRsp_fault hbt hinv.pending hno, hpa, hbad]
  simpa [ifAxiRsp, Fabric.axiRsp, hf.client, hresp] using hanswer

theorem answer_bad (hbad : isBad (run pc₀ p inp t).core.pc = true) :
    Answer pc₀ p inp t 0 true ∧ (coreIn (run pc₀ p inp t) (inp t)).ifetchRspFault = true := by
  have hbt := hb t (le_refl t)
  have hinv : FetchInv (run pc₀ p inp t) := fetchInv_run fun u hu => hb u hu.le
  have hno := denied_of_passes (i := inp t) hd
  have hpa := hinv.portA_silent hi (isBad_elim hbad).1
  have hbadRsp : (run pc₀ p inp t).fabric.ifBadRspValid = true := by
    rcases hinv.badWaits hi hq hd hbad with h | h
    · exact h
    · rw [ifRsp_valid hbt hinv.pending hno, hpa, Bool.false_or, Bool.or_eq_true] at hr
      exact hr.resolve_left fun ha => h (ifPending_of_rsp ha)
  obtain ⟨u, -, hc⟩ := current_of_inflight (fun u hu => hb u hu.le) hi hq hd
  exact ⟨.bad u hc hbad, by rw [ifRsp_fault hbt hinv.pending hno, hbadRsp, Bool.or_true]⟩

omit hr in
/-- A fetch from SRAM gets its word; the fault that comes with it can only be that of the AXI master. -/
theorem answer_sram (hs : isSram (run pc₀ p inp t).core.pc = true) :
    Answer pc₀ p inp t (coreIn (run pc₀ p inp t) (inp t)).ifetchRspData false ∧
      (coreIn (run pc₀ p inp t) (inp t)).ifetchRspFault = (ifAxiRsp (run pc₀ p inp t)).fault := by
  have hbt := hb t (le_refl t)
  have hinv : FetchInv (run pc₀ p inp t) := fetchInv_run fun u hu => hb u hu.le
  have hno := denied_of_passes (i := inp t) hd
  have hpa := hinv.sram hi hq hd hs
  have hbad := hinv.bad_silent hi (by simp [isBad, hs])
  obtain ⟨u, hu, hc⟩ := current_of_inflight (fun u hu => hb u hu.le) hi hq hd
  have haddr : ifReqAddr (run pc₀ p inp u) (inp u) = (run pc₀ p inp t).core.pc :=
    (ifReqAddr_eq (hb u (by omega))).trans hc.pc
  have hdata : (run pc₀ p inp t).portA.rspRdata =
      (run pc₀ p inp u).fabric.sram.mem (Fabric.bWordAddr (run pc₀ p inp t).core.pc) := by
    have hreq : sramAReqValid (run pc₀ p inp u) (inp u) = true := by
      rw [sramAReqValid, hc.requested, haddr, hs]
      rfl
    rw [← haddr, ← hu, run_succ]
    simp [step, portANext, hreq]
  rw [ifRsp_data hbt hinv.pending hno, ifRsp_fault hbt hinv.pending hno, hpa, hbad, if_pos rfl, hdata, Bool.or_false]
  exact ⟨.sram u hc hs, rfl⟩

end

/-! ## Where the answers are mixed up -/

/-- The core waits for the answer to the fetch of its program counter. -/
def waits (s : State) (i : In) : Bool :=
  s.core.fsm == .fetch && !Csr.irqPending s.core.csr i.ext && s.core.fetchInflight && !s.core.fetchSquash

/-- A fault of the AXI master, due to a fetch given up before, comes with the word that the core waits for. -/
def faultLeaks (s : State) (i : In) : Bool := waits s i && isSram s.core.pc && (ifAxiRsp s).fault

theorem waits_elim (h : waits s i = true) :
    s.core.fsm = .fetch ∧ Csr.irqPending s.core.csr i.ext = false ∧ s.core.fetchInflight = true ∧
      s.core.fetchSquash = false := by
  simpa [waits, and_assoc] using h

/-- S_FETCH uses an answer where it waits for one. -/
theorem waits_of_consumable (hf : s.core.fsm = .fetch) (hirq : Csr.irqPending s.core.csr i.ext = false)
    (h : rspConsumable s.core (coreIn s i) = true) : waits s i = true ∧ (coreIn s i).ifetchRspValid = true := by
  simp only [rspConsumable, Bool.and_eq_true, Bool.not_eq_true'] at h
  exact ⟨by simp [waits, hf, hirq, h], h.1.1⟩

theorem region_cases (a : Word) : isSram a = true ∨ isAxi a = true ∨ isBad a = true := by
  unfold isBad
  cases isSram a <;> cases isAxi a <;> simp

section
variable (hb : ∀ u ≤ t, Bare (run pc₀ p inp u))
include hb

theorem latched_sound (hf : (run pc₀ p inp t).core.fsm = .fetch) (hn : (run pc₀ p inp (t + 1)).core.fsm = .exec) :
    Answer pc₀ p inp t (run pc₀ p inp (t + 1)).core.instr false := by
  have hinv : FetchInv (run pc₀ p inp t) := fetchInv_run fun u hu => hb u hu.le
  obtain ⟨hirq, hcons, hfault, -, hinstr⟩ := CoreMulticycle.enter_exec (i := coreIn (run pc₀ p inp t) (inp t)) hf hn
  obtain ⟨hw, hr⟩ := waits_of_consumable hf hirq hcons
  obtain ⟨-, -, hi, hq⟩ := waits_elim hw
  have hd : pmpDenies (run pc₀ p inp t) = false := by
    cases hd : pmpDenies (run pc₀ p inp t)
    · rfl
    · have hreq := CoreMulticycle.request_intro hf hirq
      rw [(ifOut_denied (hb t (le_refl t)) hinv.pending (by rw [denied, hd, Bool.and_true]; exact hreq)).2.1] at hfault
      simp at hfault
  rw [show (run pc₀ p inp (t + 1)).core.instr = _ from hinstr]
  rcases region_cases (run pc₀ p inp t).core.pc with hs | hx | hbad
  · exact (answer_sram hb hi hq hd hs).1
  · have h := answer_axi hb hi hq hd hr hx
    rw [hfault] at h
    exact h
  · rw [(answer_bad hb hi hq hd hr hbad).2] at hfault
    simp at hfault

theorem faulted_sound (hleak : faultLeaks (run pc₀ p inp t) (inp t) = false)
    (hdeny : (waits (run pc₀ p inp t) (inp t) && pmpDenies (run pc₀ p inp t)) = false)
    (hf : (run pc₀ p inp t).core.fsm = .fetch) (ht : (committed pc₀ p inp t).trap = true)
    (hc : (committed pc₀ p inp t).cause = CAUSE_INSN_ACCESS_FAULT) : ∃ d, Answer pc₀ p inp t d true := by
  obtain ⟨hirq, hcons, hfault⟩ := CoreMulticycle.fetch_fault_elim hf ht hc
  obtain ⟨hw, hr⟩ := waits_of_consumable hf hirq hcons
  obtain ⟨-, -, hi, hq⟩ := waits_elim hw
  rw [hw, Bool.true_and] at hdeny
  rcases region_cases (run pc₀ p inp t).core.pc with hs | hx | hbad
  · rw [(answer_sram hb hi hq hdeny hs).2] at hfault
    simp [faultLeaks, hw, hs, hfault] at hleak
  · have h := answer_axi hb hi hq hdeny hr hx
    rw [hfault] at h
    exact ⟨_, h⟩
  · exact ⟨0, (answer_bad hb hi hq hdeny hr hbad).1⟩

end

/-- An answer from SRAM is no fault. -/
theorem not_fault_of_sram {d : Word} {f : Bool} (h : Answer pc₀ p inp t d f)
    (hs : isSram (run pc₀ p inp t).core.pc = true) : f = false := by
  cases h with
  | sram u hc _ => rfl
  | axi a v w hc hx =>
      rw [Fabric.isAxi_not_isSram hx] at hs
      simp at hs
  | bad u hc hb => simp [isBad, hs] at hb

section
variable (hb : ∀ u ≤ t, Bare (run pc₀ p inp u))
include hb

theorem not_fetchSoundAt_of_denied (hw : waits (run pc₀ p inp t) (inp t) = true)
    (hd : pmpDenies (run pc₀ p inp t) = true) : ¬ FetchSoundAt pc₀ p inp t := by
  intro h
  have hinv : FetchInv (run pc₀ p inp t) := fetchInv_run fun u hu => hb u hu.le
  obtain ⟨hf, hirq, hi, hq⟩ := waits_elim hw
  have hno : denied (run pc₀ p inp t) (inp t) = true := by
    rw [denied, hd, Bool.and_true]
    exact CoreMulticycle.request_intro hf hirq
  obtain ⟨hr, hfault, hpf⟩ := ifOut_denied (hb t (le_refl t)) hinv.pending hno
  obtain ⟨ht, hc⟩ := CoreMulticycle.fetch_fault_intro (i := coreIn (run pc₀ p inp t) (inp t)) hf hirq
    (by simp [rspConsumable, hr, hi, hq]) hfault hpf
  obtain ⟨d, hans⟩ := h.faulted hf ht hc
  rw [passes_of_answer (fun u hu => hb u hu.le) hans] at hd
  simp at hd

theorem not_fetchSoundAt_of_leak (hd : pmpDenies (run pc₀ p inp t) = false)
    (hleak : faultLeaks (run pc₀ p inp t) (inp t) = true) : ¬ FetchSoundAt pc₀ p inp t := by
  intro h
  have hbt := hb t (le_refl t)
  have hinv : FetchInv (run pc₀ p inp t) := fetchInv_run fun u hu => hb u hu.le
  simp only [faultLeaks, Bool.and_eq_true] at hleak
  obtain ⟨⟨hw, hs⟩, hfault⟩ := hleak
  obtain ⟨hf, hirq, hi, hq⟩ := waits_elim hw
  have hr : (coreIn (run pc₀ p inp t) (inp t)).ifetchRspValid = true := by
    rw [ifRsp_valid hbt hinv.pending (denied_of_passes hd), hinv.sram hi hq hd hs]
    rfl
  obtain ⟨ht, hc⟩ := CoreMulticycle.fetch_fault_intro (i := coreIn (run pc₀ p inp t) (inp t)) hf hirq
    (by simp [rspConsumable, hr, hi, hq]) ((answer_sram hb hi hq hd hs).2.trans hfault)
    (ifRsp_pagefault hbt hinv.pending)
  obtain ⟨d, hans⟩ := h.faulted hf ht hc
  exact Bool.false_ne_true (not_fault_of_sram hans hs).symm

end

/-- As long as the translation of fetches is off, they are sound exactly if no fault of an abandoned AXI fetch meets
the answer of the SRAM, and the PMP denies no fetch that the core waits for: it answers that one itself. -/
theorem fetchSound_iff (pc₀ : Word) (p : PowerOn) (inp : Nat → In) (T : Nat)
    (hb : ∀ t ≤ T, Bare (run pc₀ p inp t)) :
    (∀ t ≤ T, FetchSoundAt pc₀ p inp t) ↔
      ∀ t ≤ T, faultLeaks (run pc₀ p inp t) (inp t) = false ∧
        (waits (run pc₀ p inp t) (inp t) && pmpDenies (run pc₀ p inp t)) = false := by
  have upTo : ∀ {t}, t ≤ T → ∀ u ≤ t, Bare (run pc₀ p inp u) := fun ht u hu => hb u (hu.trans ht)
  constructor
  · intro h t ht
    have hdeny : (waits (run pc₀ p inp t) (inp t) && pmpDenies (run pc₀ p inp t)) = false := by
      rw [Bool.eq_false_iff, ne_eq, Bool.and_eq_true]
      exact fun hwd => not_fetchSoundAt_of_denied (upTo ht) hwd.1 hwd.2 (h t ht)
    refine ⟨?_, hdeny⟩
    cases hleak : faultLeaks (run pc₀ p inp t) (inp t)
    · rfl
    · have hw : waits (run pc₀ p inp t) (inp t) = true := by
        simp only [faultLeaks, Bool.and_eq_true] at hleak
        exact hleak.1.1
      rw [hw, Bool.true_and] at hdeny
      exact absurd (h t ht) (not_fetchSoundAt_of_leak (upTo ht) hdeny hleak)
  · intro h t ht
    exact ⟨latched_sound (upTo ht), faulted_sound (upTo ht) (h t ht).1 (h t ht).2⟩

/-- Machine software interrupts are switched on and control jumps to the AXI region. -/
def jumpProgram (n : BitVec 14) : Word :=
  if n = 0 then 0x30509073#32
  else if n = 1 then 0x30445073#32
  else if n = 2 then 0x30045073#32
  else 0x00018067#32

def jumpPowerOn : PowerOn where
  regs := fun n => if n = 1 then 0x80000000 else 0x40000000
  payload := ⟨0, false, 0, 0, 0⟩
  mem := jumpProgram
  rdata := 0
  portA := ⟨false, 0⟩

/-- The interrupt comes in cycle 14, the AXI slave takes the address in cycle 13 and answers SLVERR in cycle 17. -/
def lateSlverr (t : Nat) : In where
  mmio := ⟨true, ⟨false, 0, false⟩⟩
  clint := ⟨true, ⟨false, 0, false⟩⟩
  plic := ⟨true, ⟨false, 0, false⟩⟩
  axi :=
    { awready := true, wready := true, bvalid := false, bresp := 0, arready := true, rvalid := t == 17, rdata := 0
      rresp := 2 }
  ext := { (⟨false, false, false, false, 0⟩ : Ext) with msi := t == 14 }

/-- The same run with a slave that answers OKAY. -/
def lateOkay (t : Nat) : In := { lateSlverr t with axi := { (lateSlverr t).axi with rresp := 0 } }

theorem fetchSound_okay :
    (∀ t ≤ 20, Bare (run RESET_PC jumpPowerOn lateOkay t)) ∧
      (run RESET_PC jumpPowerOn lateOkay 18).fabric.master.rspValid = true ∧
      ∀ t ≤ 20, FetchSoundAt RESET_PC jumpPowerOn lateOkay t := by
  have hb : ∀ t ≤ 20, Bare (run RESET_PC jumpPowerOn lateOkay t) := by decide +kernel
  exact ⟨hb, by decide +kernel, (fetchSound_iff _ _ _ 20 hb).mpr (by decide +kernel)⟩

theorem not_fetchSound :
    ¬ ∀ pc₀ p inp T, (∀ t ≤ T, Bare (run pc₀ p inp t)) → ∀ t ≤ T, FetchSoundAt pc₀ p inp t := by
  intro h
  have hb : ∀ t ≤ 18, Bare (run RESET_PC jumpPowerOn lateSlverr t) := by decide +kernel
  exact not_fetchSoundAt_of_leak hb (by decide +kernel) (by decide +kernel)
    (h RESET_PC jumpPowerOn lateSlverr 18 hb 18 (le_refl 18))

end QinglongCore.SocMulticycle
