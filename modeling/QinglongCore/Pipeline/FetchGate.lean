import QinglongCore.Pipeline.Lemmas.Serial

/-!
# The gate of the fetch unit behind a trap

An exception raised in EX closes the fetch unit by `trap_pending_q`. The trap it waits for is one or two stages ahead,
and the redirect that opens the unit again comes in the same cycle or in the next one.
-/

namespace QinglongCore.CorePipeline

/-! ## Statement -/

/-- The trap in WB redirects. -/
structure TrapInWb (s : State) : Prop where
  valid : s.wb.valid = true
  trap : s.wb.trap = true
  redirects : wbRedirect s = true

/-- The trap in MEM is in WB after the next edge, unless something older redirects at that edge. -/
structure TrapInMem (s s' : State) : Prop where
  valid : s.mem.valid = true
  trap : s.mem.trap = true
  next : wbRedirect s = true ∨ (s'.wb = MemWb.ofMem s.mem s.bus ∧ TrapInWb s')

section Statement

variable (pc : Word) (regs : RegFile) (inp : Nat → In) (t : Nat)

/-- The gate that is closed in cycle `t` is opened by a redirect. -/
structure GateReleased : Prop where
  trap : TrapInMem (run pc regs inp t) (run pc regs inp (t + 1)) ∨ TrapInWb (run pc regs inp t)
  redirect : ∃ u, t ≤ u ∧ u ≤ t + 1 ∧ wbRedirect (run pc regs inp u) = true ∧
    (run pc regs inp (u + 1)).trapPending = false

end Statement

variable {s : State} {i : In} {pc : Word} {regs : RegFile} {inp : Nat → In} {t : Nat}

/-! ## Proof -/

theorem trapInWb_of_trap (hv : s.wb.valid = true) (ht : s.wb.trap = true) : TrapInWb s :=
  ⟨hv, ht, by simp [wbRedirect, hv, ht]⟩

theorem trapPending_of_redirect (h : wbRedirect s = true) : (step s i).trapPending = false := by
  show trapPendingNext s = false
  simp [trapPendingNext, h]

/-- A trap in MEM does not stall, so it goes on to WB. -/
theorem trapInMem_of_trap (hs : Spaced s) (hv : s.mem.valid = true) (ht : s.mem.trap = true) :
    TrapInMem s (step s i) := by
  refine ⟨hv, ht, ?_⟩
  cases hw : wbRedirect s
  · have hwb : (step s i).wb = MemWb.ofMem s.mem s.bus := wbNext_of_mem hw hv (hs.stallMem_of_trap hv ht)
    refine .inr ⟨hwb, trapInWb_of_trap ?_ ?_⟩
    · rw [hwb]
      exact ofMem_valid _ _
    · rw [hwb]
      exact (hs.mem_origin hv).ofMem_trap _ ht
  · exact .inl rfl

/-- In every run the closed gate has a trap ahead of it, whose redirect opens it. -/
theorem gate_released (pc : Word) (regs : RegFile) (inp : Nat → In) (t : Nat)
    (h : (run pc regs inp t).trapPending = true) : GateReleased pc regs inp t := by
  have hnow : wbRedirect (run pc regs inp t) = true → ∃ u, t ≤ u ∧ u ≤ t + 1 ∧
      wbRedirect (run pc regs inp u) = true ∧ (run pc regs inp (u + 1)).trapPending = false :=
    fun hw => ⟨t, Nat.le_refl t, by omega, hw, trapPending_of_redirect hw⟩
  rcases trapAhead_run t h with ⟨hv, ht⟩ | ⟨hv, ht⟩
  · have hm : TrapInMem (run pc regs inp t) (run pc regs inp (t + 1)) := trapInMem_of_trap (spaced_run t) hv ht
    refine ⟨.inl hm, ?_⟩
    rcases hm.next with hw | ⟨-, hw⟩
    · exact hnow hw
    · exact ⟨t + 1, by omega, Nat.le_refl _, hw.redirects, trapPending_of_redirect hw.redirects⟩
  · have hw := trapInWb_of_trap hv ht
    exact ⟨.inr hw, hnow hw.redirects⟩

/-- The word 0 at the reset vector traps in EX in cycle 3. -/
theorem gate_released_illegal :
    GateReleased RESET_PC (fun _ => 0) (fun t => .fetching (if t = 1 then some 0#32 else none)) 4 :=
  gate_released _ _ _ 4 (by decide +kernel)

end QinglongCore.CorePipeline
