import QinglongCore.Csr.Lemmas.Edges
import QinglongCore.Pipeline.Lemmas.Passage
import QinglongCore.Pipeline.Lemmas.Quotients

/-!
# The pipeline runs the instruction set

As long as the instructions are sound and memory keeps their words, the pipeline retires what the instruction set
does, with the same accesses.
-/

namespace QinglongCore.CorePipeline

open Isa (Arch Access Retirement Shown contents accesses retirements ordinary)

variable {mem₀ : Word → Word} {c : Nat → Shown} {inp : Nat → In} {t : Nat} {s : State} {u : Uses}

/-! ## Between redirects -/

/-- The fetch bus holds the fetch in flight and no other. -/
def Fetches (c : Nat → Shown) (inp : Nat → In) (t : Nat) (s : State) : Prop :=
  if s.fetch.inflight then ∃ a, Isa.fetches c inp t = [a] ∧ (c a).fetch = some s.fetch.inflightPc
  else Isa.fetches c inp t = []

/-- What no redirect has disturbed: values, order and words of the instructions in flight. -/
structure Straight (mem₀ : Word → Word) (c : Nat → Shown) (inp : Nat → In) (t : Nat) (s : State) (u : Uses) :
    Prop where
  owned : DivOwned s
  held : Held s u
  divides : Divides s u
  chained : Chained s u
  unfaulted : Unfaulted s
  words : Words (fun pc w => ∃ l, l <+: accesses c t ∧ w = contents mem₀ l pc) s
  fetches : Fetches c inp t s
  irq : s.id.irq = false ∧ (s.ex.valid = true → s.ex.ctrl.irq = false)
  mie : s.csr.mie = 0
  faults : s.bus.busFault = false ∧ s.bus.busPagefault = false
  working : s.div.started = true → s.div.doneLatched = true ∨ s.divUnit.done = true ∨ s.divUnit.state ≠ .idle

theorem fetches_step (h : Fetches c inp t s) (hc : c t = shows s (inp t)) :
    Fetches c inp (t + 1) (step s (inp t)) := by
  have hx : (c t).fetch = if ifetchAccept s (inp t) then some s.fetch.pc else none := by rw [hc]; rfl
  unfold Fetches at h ⊢
  rw [step_fetch]
  cases hin : s.fetch.inflight
  · rw [hin] at h
    have h' : Isa.fetches c inp t = [] := h
    have ho : Isa.fetches c inp (t + 1) = if (c t).fetch.isSome then [t] else [] := InOrder.outstanding_issue h'
    cases ha : ifetchAccept s (inp t)
    · simpa [fetchNext, ha, hin, hx] using ho
    · rw [ha, if_pos rfl] at hx
      simp only [fetchNext, ha, Bool.true_or, if_true]
      exact ⟨t, by simpa [hx] using ho, hx⟩
  · rw [hin] at h
    obtain ⟨a, ho, hfetch⟩ := h
    have ha : ifetchAccept s (inp t) = false := ifetchAccept_false_of_inflight hin
    rw [ha] at hx
    cases hr : (inp t).ifetchRspValid
    · simp only [fetchNext, ha, hin, rspArriving, hr, Bool.and_false, Bool.not_false, Bool.and_true, Bool.or_true,
        if_true, Bool.false_eq_true, if_false]
      exact ⟨a, (InOrder.outstanding_idle (by simp [hx]) hr).trans ho, hfetch⟩
    · simp only [fetchNext, ha, hin, rspArriving, hr, Bool.and_true, Bool.not_true, Bool.and_false, Bool.or_false,
        Bool.false_eq_true, if_false]
      exact InOrder.outstanding_return ho (by simp [hx]) hr

/-- The word that ID takes over is one that memory has held at its pc. -/
theorem consumed_word (h : Fetches c inp t s) (hs : Isa.Served c mem₀ inp) (hr : rspConsumable s (inp t) = true) :
    ∃ l, l <+: accesses c t ∧ (inp t).ifetchRspData = contents mem₀ l s.fetch.inflightPc := by
  simp only [rspConsumable, rspArriving, Bool.and_eq_true] at hr
  obtain ⟨⟨hin, hv⟩, -⟩ := hr
  unfold Fetches at h
  rw [hin] at h
  obtain ⟨a, ho, hfetch⟩ := h
  obtain ⟨v, x, -, hvt, hx, hd⟩ := hs.fetch.only ho hv
  rw [hfetch, Option.some.injEq] at hx
  exact ⟨accesses c v, Isa.accesses_prefix hvt, by rw [hd, hx]⟩

theorem Words.mono {P Q : Word → Word → Prop} (h : Words P s) (hpq : ∀ pc w, P pc w → Q pc w) : Words Q s where
  id hv hq := hpq _ _ (h.id hv hq)
  ex hv hq := hpq _ _ (h.ex hv hq)
  mem hv ht := hpq _ _ (h.mem hv ht)
  wb hv ht := hpq _ _ (h.wb hv ht)

/-- A started division goes on until its result is latched. -/
theorem working_step (hw : wbRedirect s = false)
    (h : s.div.started = true → s.div.doneLatched = true ∨ s.divUnit.done = true ∨ s.divUnit.state ≠ .idle) (i : In)
    (hs : (step s i).div.started = true) : (step s i).div.doneLatched = true ∨ (step s i).divUnit.done = true ∨
      (step s i).divUnit.state ≠ .idle := by
  rw [step_div] at hs ⊢
  simp only [divNext, hw, Bool.false_or] at hs ⊢
  cases hleave : !stallEx s && s.ex.valid && s.ex.ctrl.isDiv && s.div.doneLatched
  · simp only [hleave, Bool.false_eq_true, if_false] at hs ⊢
    cases hp : divStartPulse s
    · rw [hp] at hs
      rcases h hs with hl | hd | hb
      · left
        simp [hl]
      · left
        simp [hd]
      · right
        exact (DivUnit.step_of_busy hb (divIn s)).imp_right And.left
    · right
      exact DivUnit.step_of_start (i := divIn s) (by simp [divIn, IdEx.divIn, hp])
  · simp [hleave] at hs

theorem straight_step (h : Straight mem₀ c inp t s u) (hsp : Spaced s) (hal : SerialAlone s)
    (hc : c t = shows s (inp t)) (hs : Isa.Served c mem₀ inp) (hw : wbRedirect s = false)
    (hcsr : csrEnWb s = false) : Straight mem₀ c inp (t + 1) (step s (inp t)) (u.step s) where
  owned := divOwned_step hsp h.owned (by simp [startedAfresh, hw]) _
  held := held_step hsp hal h.owned h.held _
  divides := divides_step hsp h.owned h.divides _
  chained := chained_step hsp h.chained hw _
  unfaulted := unfaulted_step hsp h.unfaulted fun hr => by
    simp only [rspConsumable, rspArriving, Bool.and_eq_true] at hr
    exact hs.fetchClean t hr.1.2
  words := by
    have hgrow : accesses c t <+: accesses c (t + 1) := Isa.accesses_prefix (Nat.le_succ t)
    refine words_step hsp (h.words.mono fun pc w hx => ?_) fun hr => ?_
    · obtain ⟨l, hl, hw⟩ := hx
      exact ⟨l, hl.trans hgrow, hw⟩
    · obtain ⟨l, hl, hd⟩ := consumed_word h.fetches hs hr
      exact ⟨l, hl.trans hgrow, hd⟩
  fetches := fetches_step h.fetches hc
  irq := by
    have hno : allowIrqInject s (inp t).ext = false := by
      simp [allowIrqInject, Csr.irqPending_of_mie h.mie]
    constructor
    · show (idNext s (inp t)).irq = false
      unfold idNext
      rw [hno]
      split_ifs
      · rfl
      · simp at *
      · rfl
      · rfl
      · exact h.irq.1
    · intro hv
      rw [step_ex]
      rcases exNext_valid hv with ⟨-, hx, he⟩ | ⟨-, -, -, -, -, he⟩
      · rw [he]
        exact h.irq.2 hx
      · rw [he]
        exact h.irq.1
  mie := (Csr.mie_of_no_write hcsr).trans h.mie
  faults := by
    rw [step_bus]
    unfold busNext
    cases hr : memRspThisCycle s (inp t)
    · constructor <;> simp only [Bool.false_eq_true, if_false] <;> split_ifs <;> simp [h.faults]
    · obtain ⟨h₁, h₂⟩ := hs.dataClean t (memRspThisCycle_elim hr).2.2
      constructor <;> simp [h₁, h₂]
  working := working_step hw h.working _

/-! ## The instructions in flight -/

/-- The number of the oldest instruction behind WB, when `n` have retired. -/
def behind (n : Nat) (s : State) : Nat := if s.wb.valid then n + 1 else n

/-- The instructions in WB and MEM are the next ones behind the `n` that have retired. -/
structure Follows (mem₀ : Word → Word) (A : Arch) (K : Nat) (c : Nat → Shown) (inp : Nat → In) (n t : Nat)
    (s : State) : Prop where
  before : retirements c t = A.trace mem₀ n
  regs : s.regs = (A.run mem₀ n).regs
  head : headPc s = (A.run mem₀ n).pc
  wb : s.wb.valid = true →
    Retiring mem₀ (A.run mem₀ n) s.wb ∧ accesses c t = (A.run mem₀ (n + 1)).accesses
  mem : s.mem.valid = true → behind n s < K → Passing mem₀ c inp (A.run mem₀ (behind n s)) t s
  rest : s.mem.valid = false → Resting c inp (A.run mem₀ (behind n s)) t s

/-- The first `K` instructions are sound, and memory keeps their words. -/
def Steady (mem₀ : Word → Word) (A : Arch) (K : Nat) : Prop := ∀ j, j < K →
  (A.run mem₀ j).sound ((A.run mem₀ j).insn mem₀) = true ∧ Isa.Unwritten mem₀ A j

section
variable {A : Arch} {K n : Nat}

theorem Steady.ordinary (h : Steady mem₀ A K) {j : Nat} (hj : j < K) :
    Isa.ordinary ((A.run mem₀ j).insn mem₀) = true := by
  have hs := (h j hj).1
  simp only [Arch.sound, Isa.sound, Bool.and_eq_true] at hs
  exact hs.1.1.1

/-- A sound instruction does not redirect from WB. -/
theorem Retiring.calm {B : Arch} (h : Retiring mem₀ B s.wb) (ho : ordinary (B.insn mem₀) = true) :
    wbRedirect s = false ∧ csrEnWb s = false := by
  simp only [ordinary, Bool.and_eq_true, Bool.not_eq_true', Decode.isSystem, Decode.isMisc] at ho
  obtain ⟨h₁, h₂⟩ := ho
  have hf : wbIsFenceI s = false := by
    rw [wbIsFenceI, h.instr, Bool.and_assoc, h₂, Bool.and_false]
  have hsf : wbIsSfence s = false := by simp [wbIsSfence, h.instr, h₁]
  have hc : wbIsCsrwSatp s = false := by simp [wbIsCsrwSatp, wbIsCsrOp, h.instr, h₁]
  simp [wbRedirect, csrEnWb, h.trap, h.isMret, h.isSret, h.isCsr, hf, hsf, hc]

theorem Follows.calm (h : Follows mem₀ A K c inp n t s) (hk : Steady mem₀ A K) (hn : n < K) :
    wbRedirect s = false ∧ csrEnWb s = false := by
  cases hv : s.wb.valid
  · simp [wbRedirect, csrEnWb, hv]
  · exact (h.wb hv).1.calm (hk.ordinary hn)

/-- What the commit port shows is what the instruction retires with. -/
theorem Retiring.retired {B : Arch} (h : Retiring mem₀ B s.wb) (hc : c t = shows s (inp t)) (hv : s.wb.valid = true) :
    (c t).retired = some (B.retires mem₀ (B.insn mem₀)) := by
  have hz : (Decode.writesRd (B.insn mem₀) && rdField (B.insn mem₀) != 0#5) = Decode.writesRd (B.insn mem₀) := by
    rw [Decode.writesRd, Bool.and_assoc, Bool.and_self]
  rw [hc, shows, if_pos hv, rfWen, wbCommitRdData, hv, h.pc, h.instr, h.rd, h.rdWen, h.result, h.trap, h.isCsr]
  simp only [Bool.true_and, Bool.not_false, Bool.and_true, hz, Bool.false_eq_true, if_false, Arch.retires]

/-- The registers once WB has retired. -/
theorem Follows.afterWb (h : Follows mem₀ A K c inp n t s) : afterWb s = (A.run mem₀ (behind n s)).regs := by
  unfold CorePipeline.afterWb behind
  rw [h.regs]
  cases hv : s.wb.valid
  · rw [Bool.false_and, RegFile.write_false]
    rfl
  · have hr := (h.wb hv).1
    rw [hr.rd, hr.rdWen, hr.result]
    rfl

theorem Follows.regs_step (h : Follows mem₀ A K c inp n t s) (i : In) :
    (step s i).regs = (A.run mem₀ (behind n s)).regs := by
  rw [← h.afterWb]
  show s.regs.write (rfWen s) _ _ = s.regs.write _ _ _
  cases hv : s.wb.valid
  · simp [rfWen, hv, RegFile.write_false]
  · have hr := (h.wb hv).1
    have hwen : rfWen s = (s.wb.rdWen && s.wb.rd != 0#5) := by simp [rfWen, hv, hr.trap]
    rw [hwen, wbCommitRdData, hr.isCsr]
    funext x
    simp [RegFile.write, Bool.and_assoc]

/-- The pc of the oldest instruction behind WB. -/
theorem Follows.behindPc (h : Follows mem₀ A K c inp n t s) (hst : Straight mem₀ c inp t s u) :
    behindPc s = (A.run mem₀ (behind n s)).pc := by
  unfold behind
  cases hv : s.wb.valid
  · rw [← headPc_of_no_wb hv]
    exact h.head
  · have hr := (h.wb hv).1
    rw [hst.chained.wb hv hr.trap, hst.held.wb hv, hr.pc, hr.instr, h.regs]
    rfl

/-- The number of the oldest instruction behind MEM. -/
def behindMem (n : Nat) (s : State) : Nat := if s.mem.valid then behind n s + 1 else behind n s

/-- The pc of the oldest instruction behind MEM. -/
theorem Follows.afterMem (h : Follows mem₀ A K c inp n t s) (hst : Straight mem₀ c inp t s u)
    (hm : behind n s < K) : afterMem s = (A.run mem₀ (behindMem n s)).pc := by
  unfold behindMem
  cases hv : s.mem.valid
  · have hb := h.behindPc hst
    rw [CorePipeline.behindPc, hv] at hb
    exact hb
  · have hp := (h.mem hv hm).entered
    rw [hst.chained.mem hv hp.valid.2, hst.held.mem hv, hp.word.1, hp.word.2.1, h.afterWb]
    rfl

/-- Beside an instruction in EX, MEM holds at most a DIV/REM word, which neither accesses memory nor links. -/
theorem Follows.beside_ex (h : Follows mem₀ A K c inp n t s) (hsp : Spaced s) (hx : s.ex.valid = true)
    (hm : behind n s < K) : settled s = (A.run mem₀ (behindMem n s)).regs ∧
      accesses c t = (A.run mem₀ (behindMem n s)).accesses ∧
      Isa.linkOf s.resv = (A.run mem₀ (behindMem n s)).link := by
  unfold behindMem settled
  rw [h.afterWb]
  cases hv : s.mem.valid
  · rw [Bool.false_and, RegFile.write_false]
    exact ⟨rfl, (h.rest hv).accesses, (h.rest hv).link⟩
  · have hp := h.mem hv hm
    have hdiv := hsp.ex_mem hx hv
    obtain ⟨-, hi, hrd, hwen⟩ := hp.entered.word
    rw [hi] at hdiv
    obtain ⟨h₁, h₂, h₃, h₄, h₅⟩ := Decode.not_bus_of_isDiv hdiv
    have hnone := @Arch.makes_none mem₀ (A.run mem₀ (behind n s)) _ h₁ h₂
      (by simp [Decode.isAtomic, h₃, h₄, h₅])
    refine ⟨?_, ?_, ?_⟩
    · rw [hrd, hwen, (hp.entered.result hnone).2]
      rfl
    · rw [hp.accesses, hnone, List.take_nil]
      show _ = (Arch.exec mem₀ _ _).accesses
      rw [Arch.exec, hnone]
    · rw [hp.link, h₃]
      show _ = (Arch.exec mem₀ _ _).link
      simp [Arch.exec, h₃, h₄, h₅]

/-- The instruction in EX is the next one, and takes the values of the instruction set into MEM. -/
theorem Follows.ready (h : Follows mem₀ A K c inp n t s) (hsp : Spaced s) (hst : Straight mem₀ c inp t s u)
    (hk : Steady mem₀ A K) (hx : s.ex.valid = true) (hse : stallEx s = false) (hm : behind n s < K)
    (hj : behindMem n s < K) : Ready mem₀ (A.run mem₀ (behindMem n s)) s := by
  obtain ⟨hregs, hacc, -⟩ := h.beside_ex hsp hx hm
  obtain ⟨hsound, hunw⟩ := hk _ hj
  have hpc : s.ex.pc = (A.run mem₀ (behindMem n s)).pc := by
    rw [← h.afterMem hst hm, CorePipeline.afterMem, if_pos hx]
  have hi : s.ex.instr = (A.run mem₀ (behindMem n s)).insn mem₀ := by
    obtain ⟨l, hl, hw⟩ := hst.words.ex hx (hst.irq.2 hx)
    rw [hw, hpc]
    exact hunw l (hacc ▸ hl)
  have hdec := hsp.ex_decoded hx
  obtain ⟨h₁, h₂⟩ := hdec.rs_fields
  have hops : Decode.isDiv ((A.run mem₀ (behindMem n s)).insn mem₀) = false →
      exRs1Fwd s = (A.run mem₀ (behindMem n s)).rs1 ((A.run mem₀ (behindMem n s)).insn mem₀) ∧
        exRs2Fwd s = (A.run mem₀ (behindMem n s)).rs2 ((A.run mem₀ (behindMem n s)).insn mem₀) := by
    intro hd
    have hns := (hst.owned.idle (by rw [hdec.isDiv, hi, hd]; simp)).1
    have hf := hst.held.forwarded hsp hx hns
    rw [Prod.mk.injEq, hregs, h₁, h₂, hi] at hf
    exact hf
  refine ⟨hdec, hpc, hi, ?_, hops, fun hd => ?_⟩
  · cases hd : Decode.isDiv ((A.run mem₀ (behindMem n s)).insn mem₀)
    · obtain ⟨id, md, d₁, d₂, he, -⟩ := hdec
      have hq : id.irq = false := by
        have hq := hst.irq.2 hx
        rw [he] at hq
        exact hq
      have hf : (id.fault || id.pagefault) = false := by
        have hf := hst.unfaulted.ex hx
        rw [he] at hf
        exact hf
      have hw : id.instr = (A.run mem₀ (behindMem n s)).insn mem₀ := by rw [← hi, he]; rfl
      have hp : id.pc = (A.run mem₀ (behindMem n s)).pc := by rw [← hpc, he]; rfl
      rw [exTrapInfo, he, (trapInfo_isa id md d₁ d₂ _ _ hq hf (by rw [hw]; exact hk.ordinary hj) _), hw, hp,
        (hops hd).1, (hops hd).2]
      exact hsound
    · exact hdec.trapInfo_of_div (by rw [hi]; exact hd) (hst.unfaulted.ex hx) _ _ _
  · have hl : s.div.doneLatched = true := by
      rw [hsp.stallEx_of_ex hx] at hse
      simpa [exDivStall, hx, hdec.isDiv, hi, hd] using hse
    rw [hst.divides.latched hl, hst.held.latched hl, hregs, h₁, h₂, hi]
    rfl

/-- What leaves MEM, or an empty MEM, leaves no access behind. -/
theorem Follows.rests (h : Follows mem₀ A K c inp n t s) (hsp : Spaced s) (hc : c t = shows s (inp t))
    (hs : Isa.Served c mem₀ inp) (hk : Steady mem₀ A K) (hw : wbRedirect s = false) (hm : behind n s < K)
    (hsm : stallMem s = false) : Resting c inp (A.run mem₀ (behindMem n s)) (t + 1) (step s (inp t)) ∧
      (step s (inp t)).wb.valid = s.mem.valid := by
  unfold behindMem
  cases hv : s.mem.valid
  · exact ⟨(h.rest hv).idle hc hs hw hv, wbNext_empty (.inl hv)⟩
  · refine ⟨(h.mem hv hm).leaves hsp hc hs hw hsm (hk.ordinary hm), ?_⟩
    rw [step_wb, wbNext_of_mem hw hv hsm, ofMem_valid]

theorem Follows.stays (h : Follows mem₀ A K c inp n t s) (hsp : Spaced s) (hst : Straight mem₀ c inp t s u)
    (hc : c t = shows s (inp t)) (hs : Isa.Served c mem₀ inp) (hk : Steady mem₀ A K) (hn : n < K)
    (hm : behind n s < K) : Follows mem₀ A K c inp (behind n s) (t + 1) (step s (inp t)) := by
  obtain ⟨hw, -⟩ := h.calm hk hn
  refine ⟨?_, h.regs_step _, ?_, fun hv => ?_, fun hv hm' => ?_, fun hv => ?_⟩
  · rw [retirements, h.before]
    unfold behind
    cases hv : s.wb.valid
    · have hr : (c t).retired = none := by simp [hc, shows, hv]
      simp [hr]
    · simp [(h.wb hv).1.retired hc hv, Arch.trace]
  · rw [headPc_step hw]
    exact h.behindPc hst
  · have hv' : (wbNext s).valid = true := hv
    obtain ⟨-, hmv, hsm, he⟩ := wbNext_valid hv'
    have hp := h.mem hmv hm
    have hl : s.mem.lsPending = false := by
      rw [stallMem_of_ordinary (by rw [hp.entered.word.2.1]; exact hk.ordinary hm), hmv] at hsm
      exact hsm
    rw [step_wb, he]
    exact ⟨hp.retiring hl (hk.ordinary hm) hst.faults, (hp.leaves hsp hc hs hw hsm (hk.ordinary hm)).accesses⟩
  · have hv' : (memNext s (inp t)).valid = true := hv
    obtain ⟨-, ⟨hsm, hmv, -⟩ | ⟨hse, hx, he⟩⟩ := memNext_valid hv'
    · have hwb : (step s (inp t)).wb.valid = false := wbNext_empty (.inr hsm)
      rw [behind, hwb]
      exact passing_hold (h.mem hmv hm) hc hs hw hsm (hk.ordinary hm)
    · obtain ⟨hrest, hwb⟩ := h.rests hsp hc hs hk hw hm (stallMem_false_of_stallEx hse)
      have hnum : behind (behind n s) (step s (inp t)) = behindMem n s := by
        rw [behind, hwb]
        rfl
      rw [hnum] at hm' ⊢
      exact passing_enter (h.ready hsp hst hk hx hse hm hm') hrest (h.beside_ex hsp hx hm).2.2 he
        (hsp.progress_fresh hw hx hse).2
  · have hsm : stallMem s = false := by
      cases hsm : stallMem s
      · rfl
      · cases hmv : s.mem.valid
        · rw [stallMem_false_of_invalid hmv] at hsm
          simp at hsm
        · have hv' : (memNext s (inp t)).valid = false := hv
          rw [memNext_of_stall hw hsm, memHold_valid, hmv] at hv'
          simp at hv'
    obtain ⟨hrest, hwb⟩ := h.rests hsp hc hs hk hw hm hsm
    rw [behind, hwb]
    exact hrest

theorem Follows.performs (h : Follows mem₀ A K c inp n t s) (hc : c t = shows s (inp t)) (hv : s.wb.valid = true) :
    Isa.Performs mem₀ A c n t :=
  ⟨(h.wb hv).1.retired hc hv, h.before, (h.wb hv).2⟩

end

/-! ## Runs -/

section
variable {pc : Word} {regs : RegFile} {K n : Nat}

/-- In cycle `t` the pipeline has retired `n` instructions, all as the instruction set does. -/
structure OnTrack (mem₀ : Word → Word) (pc : Word) (regs : RegFile) (inp : Nat → In) (K n t : Nat) : Prop where
  straight : Straight mem₀ (shown pc regs inp) inp t (run pc regs inp t) (uses pc regs inp t)
  follows : Follows mem₀ ⟨pc, regs, none, []⟩ K (shown pc regs inp) inp n t (run pc regs inp t)

theorem onTrack_zero : OnTrack mem₀ pc regs inp K 0 0 where
  straight :=
    { owned := divOwned_reset pc regs
      held := held_reset pc regs _
      divides := divides_reset pc regs _
      chained := chained_reset pc regs _
      unfaulted := unfaulted_reset pc regs
      words := by constructor <;> simp [run, Sync.run, reset]
      fetches := rfl
      irq := ⟨rfl, fun h => by simp [run, Sync.run, reset] at h⟩
      mie := rfl
      faults := ⟨rfl, rfl⟩
      working := fun h => by simp [run, Sync.run, reset] at h }
  follows := ⟨rfl, rfl, rfl, fun h => by simp [run, Sync.run, reset] at h,
    fun h => by simp [run, Sync.run, reset] at h, fun _ => ⟨rfl, rfl, rfl⟩⟩

theorem OnTrack.step (h : OnTrack mem₀ pc regs inp K n t) (hs : Isa.Served (shown pc regs inp) mem₀ inp)
    (hk : Steady mem₀ ⟨pc, regs, none, []⟩ K) (hn : n < K) (hm : behind n (run pc regs inp t) < K) :
    OnTrack mem₀ pc regs inp K (behind n (run pc regs inp t)) (t + 1) := by
  obtain ⟨hw, hcsr⟩ := h.follows.calm hk hn
  exact ⟨straight_step h.straight (spaced_run t) (serialAlone_run t) rfl hs hw hcsr,
    h.follows.stays (spaced_run t) h.straight rfl hs hk hn hm⟩

end

end QinglongCore.CorePipeline
