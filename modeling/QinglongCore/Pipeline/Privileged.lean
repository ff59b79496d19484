import QinglongCore.Pipeline.DropIn
import QinglongCore.Pipeline.Lemmas.Advance

/-!
# The pipeline is a hart with CSRs

With traps, returns, fences and interrupts, the pipeline commits what the hart does, one commit a step. A fence makes
the stores in front of it visible to the fetches behind it.
-/

namespace QinglongCore.CorePipeline

open Isa (Hart accesses)

/-! ## Statement -/

section
variable (mem₀ : Word → Word) (pc : Word) (regs : RegFile) (inp : Nat → In) (t : Nat)

/-- The pipeline and the hart in cycle `t`, with the step that the commit port shows. -/
structure InStep : Prop where
  registers : (run pc regs inp t).regs = (hart mem₀ pc regs inp t).arch.regs
  csrs : (run pc regs inp t).csr = (hart mem₀ pc regs inp t).csrNow (run pc regs inp t).csr.mcycle
  commit : ∀ r, (shown pc regs inp t).retired = some r →
    r.pc = (hart mem₀ pc regs inp t).arch.pc ∧
      r.trap = ((hart mem₀ pc regs inp t).trap mem₀ (moment pc regs inp t).interrupt).isSome ∧
      (r.trap = false → r.insn = (hart mem₀ pc regs inp t).insn mem₀) ∧
      (hart mem₀ pc regs inp (t + 1)).arch.regs =
        (hart mem₀ pc regs inp t).arch.regs.write r.rdWen r.rd r.rdData
  /-- An interrupt is one that the hart takes. -/
  due : (hart mem₀ pc regs inp t).Due (moment pc regs inp t).interrupt
  /-- With the commit all accesses of the hart have been made, and no others. -/
  memory : (shown pc regs inp t).retired.isSome →
    accesses (shown pc regs inp) t = (hart mem₀ pc regs inp (t + 1)).arch.accesses

end

variable {mem₀ : Word → Word} {pc : Word} {regs : RegFile} {inp : Nat → In} {t T : Nat}

/-! ## Runs -/

theorem abreast_zero : Abreast mem₀ pc regs inp 0 where
  level :=
    { orderly := orderly_zero
      current :=
        { past := List.prefix_rfl
          words := by constructor <;> simp [run, Sync.run, reset]
          fetch := fun h => by simp [run, Sync.run, reset] at h }
      registers := rfl
      csrs := rfl
      head := rfl
      wb := fun h => by simp [run, Sync.run, reset] at h }
  rest _ := ⟨rfl, rfl, rfl⟩
  mem h := by simp [run, Sync.run, reset] at h

theorem abreast_run (hs : Isa.Served (shown pc regs inp) mem₀ inp)
    (hk : ∀ t, t < T → (hart mem₀ pc regs inp t).Coherent mem₀)
    (hc : ∀ t, t < T → wbRedirect (run pc regs inp t) = true → exDivStall (run pc regs inp t) = false) (ht : t < T) :
    Abreast mem₀ pc regs inp t := by
  induction t with
  | zero => exact abreast_zero
  | succ t ih => exact (ih (by omega)).step hs (hk (t + 1) ht) (hc t (by omega))

theorem Level.inStep (hl : Level mem₀ pc regs inp t) : InStep mem₀ pc regs inp t where
  registers := hl.registers
  csrs := hl.csrs.symm
  commit r hr := by
    have hr' : (if (run pc regs inp t).wb.valid then some _ else none) = some r := hr
    cases hv : (run pc regs inp t).wb.valid
    · rw [hv] at hr'
      simp at hr'
    · have htrap := (hl.commands hv).trap
      rw [hv, if_pos rfl, Option.some.injEq] at hr'
      rw [← hr']
      refine ⟨?_, by rw [← htrap]; exact Bool.true_and _, fun ht => ?_, ?_⟩
      · show (run pc regs inp t).wb.pc = _
        rw [← hl.head, headPc_of_wb hv]
      · show (run pc regs inp t).wb.instr = _
        have ht' : (run pc regs inp t).wb.trap = false := by
          have ht'' : (true && (run pc regs inp t).wb.trap) = false := ht
          rwa [Bool.true_and] at ht''
        cases (hl.wb hv).1 with
        | trap _ hx =>
            rw [hx.trap] at ht'
            simp at ht'
        | insn _ hx => exact hx.instr
      · rw [← hl.regs_next, ← hl.registers]
        rfl
  due := by
    cases hv : (run pc regs inp t).wb.valid
    · have hn : (moment pc regs inp t).interrupt = none := by simp [moment, irqTrapWb, trapTakeWb, hv]
      rw [hn]
      exact fun e he => by simp at he
    · exact (hl.wb hv).2.1
  memory hr := by
    cases hv : (run pc regs inp t).wb.valid
    · have hr' : (shown pc regs inp t).retired = none := by simp [shown, shows, hv]
      rw [hr'] at hr
      simp at hr
    · rw [(hl.wb hv).2.2, hl.left_accesses]

/-- On a memory that answers without a fault, as long as memory has held the fetched words since the last fence and no
redirect meets a division in EX, the pipeline runs in step with the hart. -/
theorem pipeline_hart (mem₀ : Word → Word) (pc : Word) (regs : RegFile) (inp : Nat → In) (T : Nat)
    (hs : Isa.Served (shown pc regs inp) mem₀ inp) (hk : ∀ t, t < T → (hart mem₀ pc regs inp t).Coherent mem₀)
    (hc : ∀ t, t < T → wbRedirect (run pc regs inp t) = true → exDivStall (run pc regs inp t) = false) :
    ∀ t, t < T → InStep mem₀ pc regs inp t :=
  fun _ ht => (abreast_run hs hk hc ht).level.inStep

/-- `csrrwi mie, 2`, `csrrwi mip, 2` and `csrrsi mstatus, 8` bring an interrupt, from which the handler at 0 returns.
Then `auipc x2, 0`, `addi x3, x0, 19` and `sw x3, 16(x2)` put a `nop` behind the `fence.i` that follows. -/
def patching (a : Word) : Word :=
  if a = 0x80000000#32 then 0x30415073#32 else if a = 0x80000004#32 then 0x34415073#32
  else if a = 0x80000008#32 then 0x30046073#32 else if a = 0x8000000C#32 then 0x00000117#32
  else if a = 0x80000010#32 then 0x01300193#32 else if a = 0x80000014#32 then 0x00312823#32
  else if a = 0x80000018#32 then 0x0000100F#32 else if a = 0x0#32 then 0x34405073#32
  else if a = 0x4#32 then 0x30200073#32 else 0

/-- The `nop` commits in cycle 50. -/
theorem pipeline_patching :
    InStep patching RESET_PC (fun _ => 0) (pipelineBench patching 0 RESET_PC fun _ => 0).inp 50 ∧
      ((pipelineBench patching 0 RESET_PC fun _ => 0).shown 50).retired =
        some ⟨0x8000001C#32, 0x00000013#32, false, 0#5, 0#32, false⟩ := by
  have h := pipeline_hart patching RESET_PC (fun _ => 0) (pipelineBench patching 0 RESET_PC fun _ => 0).inp 51
  rw [pipelineBench_shown] at h
  exact ⟨h (Isa.Bench.served _) (by decide +kernel) (by decide +kernel) 50 (by decide), by decide +kernel⟩

end QinglongCore.CorePipeline
