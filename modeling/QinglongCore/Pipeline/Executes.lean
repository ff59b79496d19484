import QinglongCore.Isa.Hart
import QinglongCore.Pipeline.DropIn

/-!
# Both cores execute RV32IMA

What a core retires is the run of a hart of RV32IMA from the same pc, registers and memory. The pipeline retires every
run of the hart that ends without an exception and does not store to its own code. What the multicycle core retires
without a trap is a run of the hart, when the words that it performs are instructions of RV32IMA.
-/

namespace QinglongCore

open Isa (Arch Shown Performs accesses retirements)

namespace Isa

/-- A hart of RV32IMA before its first instruction. -/
def boot (mem₀ : Word → Word) (pc : Word) (regs : RegFile) : Rv32.State := hart mem₀ ⟨pc, regs, none, []⟩

/-- In cycle `t` the core shows the instruction after `k` others, with all accesses up to its own. -/
structure Executes (mem₀ : Word → Word) (s₀ : Rv32.State) (c : Nat → Shown) (k t : Nat) : Prop where
  count : (retirements c t).length = k
  step : ∃ s s' r, s₀.run k = some s ∧ s₀.run (k + 1) = some s' ∧ (c t).retired = some r ∧ r.Takes s s' ∧
    byteMemory mem₀ (accesses c t) = s'.mem

variable {mem₀ : Word → Word} {pc : Word} {regs : RegFile} {c : Nat → Shown} {k t : Nat}

theorem Performs.executes (h : Performs mem₀ ⟨pc, regs, none, []⟩ c k t)
    (hrun : ((boot mem₀ pc regs).run (k + 1)).isSome) : Executes mem₀ (boot mem₀ pc regs) c k t := by
  obtain ⟨s', hs'⟩ := Option.isSome_iff_exists.mp hrun
  obtain ⟨s, i, hs, -⟩ := Rv32.State.run_last hs'
  refine ⟨by rw [h.before, trace_length], s, s', _, hs, hs', h.retired, ?_, ?_⟩
  · rw [run_hart hs]
    exact takes_of_step hs'
  · rw [h.accesses, run_hart hs']
    rfl

end Isa

/-! ## The pipeline -/

namespace CorePipeline

variable {mem₀ : Word → Word} {pc : Word} {regs : RegFile} {inp : Nat → In} {n k : Nat}

/-- A run of the hart that keeps its code is a run that the pipeline follows. -/
theorem steady_boot (hrun : ((Isa.boot mem₀ pc regs).run n).isSome) (hkept : (Isa.boot mem₀ pc regs).CodeKept n) :
    Steady mem₀ ⟨pc, regs, none, []⟩ n := by
  intro j hj
  obtain ⟨s, hs⟩ := Option.isSome_iff_exists.mp (Rv32.State.run_isSome hrun hj)
  obtain ⟨i, -, -, hsound, -⟩ := Isa.step_hart hs
  exact ⟨hsound, Isa.unwritten_hart rfl hrun hkept hj⟩

/-- Every instruction of such a run commits, with the registers of the hart. -/
theorem commits_boot (hs : Isa.Served (shown pc regs inp) mem₀ inp) (hw : Isa.Willing (shown pc regs inp) inp)
    (hrun : ((Isa.boot mem₀ pc regs).run n).isSome) (hkept : (Isa.boot mem₀ pc regs).CodeKept n) (hk : k < n) :
    ∃ t, Isa.Executes mem₀ (Isa.boot mem₀ pc regs) (shown pc regs inp) k t ∧
      ∃ s, (Isa.boot mem₀ pc regs).run k = some s ∧ Isa.registers (run pc regs inp t).regs = s.regs := by
  have hk' := Rv32.State.run_isSome hrun (show k ≤ n by omega)
  obtain ⟨t, ht⟩ := commits_all hs hw (steady_boot hrun hkept) hk
  obtain ⟨s, hsk⟩ := Option.isSome_iff_exists.mp hk'
  refine ⟨t, ?_, s, hsk, ?_⟩
  · exact (ht.track.follows.performs rfl ht.wb).executes (Rv32.State.run_isSome hrun hk)
  · rw [ht.track.follows.regs, Isa.run_hart hsk]
    rfl

/-- On a memory that answers every request, the pipeline retires each instruction that RV32IMA runs from the reset
pc: in order, none left out and none put in between, with its results in the registers and in memory. -/
theorem pipeline_executes (mem₀ : Word → Word) (pc : Word) (regs : RegFile) (inp : Nat → In) (n : Nat)
    (hs : Isa.Served (shown pc regs inp) mem₀ inp) (hw : Isa.Willing (shown pc regs inp) inp)
    (hrun : ((Isa.boot mem₀ pc regs).run n).isSome) (hkept : (Isa.boot mem₀ pc regs).CodeKept n) :
    ∀ k, k < n → ∃ t, Isa.Executes mem₀ (Isa.boot mem₀ pc regs) (shown pc regs inp) k t ∧
      ∃ s, (Isa.boot mem₀ pc regs).run k = some s ∧ Isa.registers (run pc regs inp t).regs = s.regs :=
  fun _ hk => commits_boot hs hw hrun hkept hk

/-- `addi x1, x1, 1` everywhere. -/
def counting (_ : Word) : Word := 0x00108093#32

/-- The second instruction of an endless count. -/
theorem pipeline_counting : ∃ t,
    Isa.Executes counting (Isa.boot counting RESET_PC fun _ => 0)
      (pipelineBench counting 0 RESET_PC fun _ => 0).shown 1 t ∧
      ∃ s, (Isa.boot counting RESET_PC fun _ => 0).run 1 = some s ∧
        Isa.registers (run RESET_PC (fun _ => 0) (pipelineBench counting 0 RESET_PC fun _ => 0).inp t).regs = s.regs := by
  have h := pipeline_executes counting RESET_PC (fun _ => 0) (pipelineBench counting 0 RESET_PC fun _ => 0).inp 2
  rw [pipelineBench_shown] at h
  refine h (Isa.Bench.served _) (Isa.Bench.willing _) (by decide +kernel) ?_ 1 (by decide)
  have hmem : ∀ j, j < 2 → ((Isa.boot counting RESET_PC fun _ => 0).run j).map Rv32.State.mem =
      some (Isa.boot counting RESET_PC fun _ => 0).mem := by
    intro j hj
    obtain rfl | rfl : j = 0 ∨ j = 1 := by omega
    · rfl
    · rfl
  intro j k s' s'' hj hk hs' hs''
  have h' := hmem j (by omega)
  have h'' := hmem k hk
  rw [hs', Option.map_some, Option.some_inj] at h'
  rw [hs'', Option.map_some, Option.some_inj] at h''
  rw [h', h'']

end CorePipeline

/-! ## The multicycle core -/

namespace CoreMulticycle

/-- Whatever the multicycle core retires before the first trap is the next instruction that RV32IMA runs from the
reset pc, when it is an instruction of RV32IMA. -/
theorem multicycle_executes (mem₀ : Word → Word) (pc : Word) (regs : RegFile) (inp : Nat → CorePipeline.In) (T : Nat)
    (hs : Isa.Served (shown pc regs inp) mem₀ inp) (hone : Isa.OneFetch (shown pc regs inp) inp)
    (hp : Isa.Plain (shown pc regs inp) T) (hal : Isa.Aligned pc)
    (henc : ∀ t, t < T → ∀ r, (shown pc regs inp t).retired = some r → ∃ i, Rv32.encode i = r.insn) :
    ∀ t, t < T → (shown pc regs inp t).retired.isSome →
      Isa.Executes mem₀ (Isa.boot mem₀ pc regs) (shown pc regs inp) (retirements (shown pc regs inp) t).length t := by
  intro t ht hr
  obtain ⟨r, hr⟩ := Option.isSome_iff_exists.mp hr
  obtain ⟨k, hk, hall⟩ := performs_of_retired hs hone hp ht hr
  have hrun : (Isa.boot mem₀ pc regs).run (k + 1) = _ := (Isa.run_of_sound (A := ⟨pc, regs, none, []⟩) hal fun j hj => by
    obtain ⟨hsound, u, hu, hpu⟩ := hall j (by omega)
    obtain ⟨i, hi⟩ := henc u hu _ hpu.retired
    exact ⟨hsound, i, hi⟩).1
  have hlen : (retirements (shown pc regs inp) t).length = k := by rw [hk.before, Isa.trace_length]
  rw [hlen]
  exact hk.executes (by rw [hrun]; rfl)

/-- The second instruction of the count on the multicycle core. -/
theorem multicycle_counting : Isa.Executes CorePipeline.counting
    (Isa.boot CorePipeline.counting RESET_PC fun _ => 0)
    (multicycleBench CorePipeline.counting 0 RESET_PC fun _ => 0).shown
    (retirements (multicycleBench CorePipeline.counting 0 RESET_PC fun _ => 0).shown 5).length 5 := by
  have h := multicycle_executes CorePipeline.counting RESET_PC (fun _ => 0)
    (multicycleBench CorePipeline.counting 0 RESET_PC fun _ => 0).inp 8
  rw [multicycleBench_shown] at h
  have hall : ∀ t, t < 8 → ((multicycleBench CorePipeline.counting 0 RESET_PC fun _ => 0).shown t).retired.all
      (fun r => !r.trap && Isa.ordinary r.insn && r.insn == Rv32.encode (.imm .addi 1 1 1)) = true := by decide +kernel
  refine h (Isa.Bench.served _) (Isa.Bench.oneFetch _ rfl) (fun t ht r hr => ?_) (by decide) (fun t ht r hr => ?_) 5
    (by decide) (by decide +kernel)
  · have hr' := hall t ht
    rw [hr] at hr'
    simp only [Option.all_some, Bool.and_eq_true, Bool.not_eq_true'] at hr'
    exact hr'.1
  · have hr' := hall t ht
    rw [hr] at hr'
    simp only [Option.all_some, Bool.and_eq_true, beq_iff_eq] at hr'
    exact ⟨_, hr'.2.symm⟩

end CoreMulticycle

end QinglongCore
