import QinglongCore.Pipeline.PreciseIrq
import QinglongCore.Pipeline.Refinement

/-!
# In order between redirects

A redirect that finds no division in EX leaves the pipe empty. So values, order and words of what is in flight stay
right over whole runs with traps, returns and fences, and what is fetched behind a redirect has seen all accesses
before it.
-/

namespace QinglongCore.CorePipeline

open Isa (Access Shown contents accesses)

variable {mem₀ : Word → Word} {c : Nat → Shown} {inp : Nat → In} {t : Nat} {s : State}

/-! ## Interrupt bubbles -/

/-- An interrupt bubble is alone in front of what is fetched, and the hart has been interrupted since it was put in. -/
structure Preempts (inp : Nat → In) (t : Nat) (s : State) : Prop where
  id : s.id.valid = true → s.id.irq = true → (s.ex.valid = false ∧ s.mem.valid = false ∧ s.wb.valid = false) ∧
    Csr.irqPending s.csr (inp (t - 1)).ext = true ∧ s.id.irqCause = Csr.irqCause s.csr (inp (t - 1)).ext
  ex : s.ex.valid = true → s.ex.ctrl.irq = true → (s.mem.valid = false ∧ s.wb.valid = false) ∧
    Csr.irqPending s.csr (inp (t - 2)).ext = true ∧ s.ex.irqCause = Csr.irqCause s.csr (inp (t - 2)).ext

theorem preempts_reset (pc : Word) (regs : RegFile) : Preempts inp 0 (reset pc regs) := by
  constructor <;> simp [reset]

/-- Counting keeps what the interrupts depend on. -/
theorem interrupts_of_idle (hv : s.wb.valid = false) (i : In) (e : Ext) :
    Csr.irqPending (step s i).csr e = Csr.irqPending s.csr e ∧
      Csr.irqCause (step s i).csr e = Csr.irqCause s.csr e := by
  have hc : (step s i).csr = Csr.tick s.csr i.ext (csrIn s) := csrStep_of_idle hv i.ext
  rw [hc]
  exact ⟨rfl, rfl⟩

/-- An empty EX, MEM and WB stay so apart from what enters EX. -/
theorem empty_step (hx : s.ex.valid = false) (hm : s.mem.valid = false) (i : In) :
    (step s i).mem.valid = false ∧ (step s i).wb.valid = false :=
  ⟨memNext_empty hm (.inr hx), wbNext_empty (.inl hm)⟩

theorem preempts_step (h : Preempts inp t s) (hsp : Spaced s) : Preempts inp (t + 1) (step s (inp t)) where
  id hv hq := by
    have hv' : (idNext s (inp t)).valid = true := hv
    have hq' : (idNext s (inp t)).irq = true := hq
    rw [step_id]
    obtain ⟨-, ⟨hid, hst, he⟩ | ⟨-, hirq, he⟩ | ⟨-, -, -, he⟩⟩ := idNext_valid hv'
    · rw [he] at hq'
      obtain ⟨⟨hx, hm, hw⟩, -⟩ := h.id hid hq'
      rw [stallId_of_idle hx hm hw] at hst
      simp at hst
    · obtain ⟨hp, hx, hm, hw, -, -, hnq⟩ := allowIrqInject_elim hirq
      obtain ⟨hm', hw'⟩ := empty_step hx hm (inp t)
      obtain ⟨hpend, hcause⟩ := interrupts_of_idle hw (inp t) (inp t).ext
      refine ⟨⟨?_, hm', hw'⟩, ?_, ?_⟩
      · rw [step_ex]
        cases hxv : (exNext s (inp t)).valid
        · rfl
        rcases exNext_valid hxv with ⟨-, hx', -⟩ | ⟨-, -, -, -, hi, -⟩
        · rw [hx] at hx'
          simp at hx'
        · rw [hi hirq] at hnq
          simp at hnq
      · rw [Nat.add_sub_cancel, hpend]
        exact hp
      · rw [Nat.add_sub_cancel, hcause, he]
        rfl
    · rw [he] at hq'
      simp [fetched] at hq'
  ex hv hq := by
    have hv' : (exNext s (inp t)).valid = true := hv
    have hq' : (exNext s (inp t)).ctrl.irq = true := hq
    rw [step_ex]
    rcases exNext_valid hv' with ⟨hst, hx, he⟩ | ⟨hid, -, -, -, -, he⟩
    · -- a bubble does not divide
      rw [hsp.stallEx_of_ex hx] at hst
      have hd := (exDivStall_elim hst).2.1
      rw [he] at hq'
      obtain ⟨id, m, d₁, d₂, hxe, hirq⟩ := hsp.ex_decoded hx
      rw [hxe] at hq' hd
      have hd' : Decode.isDiv id.instr = true := hd
      rw [hirq hq'] at hd'
      exact absurd hd' (by decide)
    · rw [he] at hq' ⊢
      obtain ⟨⟨hx, hm, hw⟩, hp, hcause⟩ := h.id hid hq'
      obtain ⟨hpend, hirq⟩ := interrupts_of_idle hw (inp t) (inp (t - 1)).ext
      exact ⟨empty_step hx hm (inp t), hpend.trans hp, hcause.trans hirq.symm⟩

/-! ## Fetched words -/

/-- The fetched words have seen the accesses of `seen`, and so have those that will be taken over. -/
structure Current (mem₀ : Word → Word) (c : Nat → Shown) (inp : Nat → In) (seen : List Access) (t : Nat) (s : State) :
    Prop where
  past : seen <+: accesses c t
  words : Words (fun pc w => ∃ l, seen <+: l ∧ l <+: accesses c t ∧ w = contents mem₀ l pc) s
  fetch : s.fetch.inflight = true → s.fetch.squash = false → ∀ a, Isa.fetches c inp t = [a] → seen <+: accesses c a

section
variable {seen : List Access}

/-- The request that is accepted is the only one. -/
theorem fetches_of_accept (h : Fetches c inp t s) (hc : c t = shows s (inp t)) (ha : ifetchAccept s (inp t) = true) :
    Isa.fetches c inp (t + 1) = [t] := by
  have hin := (ifetchAccept_elim ha).1
  unfold Fetches at h
  rw [hin, if_neg (by simp)] at h
  rw [Isa.fetches, InOrder.outstanding_issue h, hc, shows, ha]
  rfl

theorem fetches_of_wait (hc : c t = shows s (inp t)) (ha : ifetchAccept s (inp t) = false)
    (hin : s.fetch.inflight = true) (hr : rspArriving s (inp t) = false) :
    Isa.fetches c inp (t + 1) = Isa.fetches c inp t := by
  have hv : (inp t).ifetchRspValid = false := by simpa [rspArriving, hin] using hr
  exact InOrder.outstanding_idle (by rw [hc, shows, ha]; rfl) hv

theorem Current.step (h : Current mem₀ c inp seen t s) (hsp : Spaced s) (hf : Fetches c inp t s)
    (hc : c t = shows s (inp t)) (hs : Isa.Served c mem₀ inp) : Current mem₀ c inp seen (t + 1) (step s (inp t)) := by
  have hgrow : accesses c t <+: accesses c (t + 1) := Isa.accesses_prefix (Nat.le_succ t)
  refine ⟨h.past.trans hgrow, words_step hsp (h.words.mono fun pc w hx => ?_) fun hr => ?_, fun hin hq a ha => ?_⟩
  · obtain ⟨l, h₁, h₂, hw⟩ := hx
    exact ⟨l, h₁, h₂.trans hgrow, hw⟩
  · simp only [rspConsumable, rspArriving, Bool.and_eq_true, Bool.not_eq_true'] at hr
    obtain ⟨⟨hin, hv⟩, hsq⟩ := hr
    unfold Fetches at hf
    rw [hin] at hf
    obtain ⟨a, ho, hfetch⟩ := hf
    obtain ⟨v, x, hav, hvt, hx, hd⟩ := hs.fetch.only ho hv
    rw [hfetch, Option.some.injEq] at hx
    exact ⟨accesses c v, (h.fetch hin hsq a ho).trans (Isa.accesses_prefix hav),
      (Isa.accesses_prefix hvt).trans hgrow, by rw [hd, hx]⟩
  · rcases fetchNext_inflight hin with ⟨hacc, -, -⟩ | ⟨hacc, hin', hr, -, hsq⟩
    · rw [fetches_of_accept hf hc hacc, List.cons.injEq] at ha
      rw [← ha.1]
      exact h.past
    · have hq' : (fetchNext s (inp t)).squash = false := hq
      rw [hsq, Bool.or_eq_false_iff] at hq'
      rw [fetches_of_wait hc hacc hin' hr] at ha
      exact h.fetch hin' hq'.2 a ha

/-- In an empty pipe nothing has been fetched yet. -/
theorem Drained.current (h : Drained s) : Current mem₀ c inp (accesses c t) t s where
  past := List.prefix_rfl
  words := h.words
  fetch hin hq := by
    rw [h.fetch hin] at hq
    simp at hq

end

/-! ## Runs -/

section
variable {pc : Word} {regs : RegFile}

/-- Order and values of the instructions in flight in cycle `t`. -/
structure Orderly (pc : Word) (regs : RegFile) (inp : Nat → In) (t : Nat) : Prop where
  path : OnPath pc regs inp t
  divides : Divides (run pc regs inp t) (uses pc regs inp t)
  unfaulted : Unfaulted (run pc regs inp t)
  faults : (run pc regs inp t).bus.busFault = false ∧ (run pc regs inp t).bus.busPagefault = false
  fetches : Fetches (shown pc regs inp) inp t (run pc regs inp t)
  preempts : Preempts inp t (run pc regs inp t)

theorem orderly_zero : Orderly pc regs inp 0 where
  path := onPath_zero
  divides := divides_reset pc regs _
  unfaulted := unfaulted_reset pc regs
  faults := ⟨rfl, rfl⟩
  fetches := rfl
  preempts := preempts_reset pc regs

theorem Orderly.step (h : Orderly pc regs inp t) (hs : Isa.Served (shown pc regs inp) mem₀ inp)
    (hc : wbRedirect (run pc regs inp t) = true → exDivStall (run pc regs inp t) = false) :
    Orderly pc regs inp (t + 1) where
  path := h.path.step hc
  divides := divides_step (spaced_run t) h.path.owned h.divides _
  unfaulted := unfaulted_step (spaced_run t) h.unfaulted fun hr => by
    simp only [rspConsumable, rspArriving, Bool.and_eq_true] at hr
    exact hs.fetchClean t hr.1.2
  faults := by
    show (busNext (run pc regs inp t) (inp t)).busFault = false ∧
      (busNext (run pc regs inp t) (inp t)).busPagefault = false
    unfold busNext
    cases hr : memRspThisCycle (run pc regs inp t) (inp t)
    · constructor <;> simp only [Bool.false_eq_true, if_false] <;> split_ifs <;> simp [h.faults]
    · obtain ⟨h₁, h₂⟩ := hs.dataClean t (memRspThisCycle_elim hr).2.2
      constructor <;> simp [h₁, h₂]
  fetches := fetches_step h.fetches rfl
  preempts := preempts_step h.preempts (spaced_run t)

end

end QinglongCore.CorePipeline
