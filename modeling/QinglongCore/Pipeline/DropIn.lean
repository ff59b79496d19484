import QinglongCore.Isa.LaggedMemory
import QinglongCore.Multicycle.Refinement
import QinglongCore.Pipeline.Progress

/-!
# The pipeline in place of the multicycle core

Both cores run the instruction set, so the pipeline retires what the multicycle core retires and makes the same
accesses. The multicycle core holds its fetch request up until it is answered: it needs a bus that takes it once.
-/

namespace QinglongCore

open Isa (Arch Shown Performs Repeats retirements accesses)

variable {mem₀ : Word → Word} {pc : Word} {regs : RegFile} {inp : Nat → CorePipeline.In} {T u : Nat}

/-- What the multicycle core retires is the next instruction of the instruction set, behind those it has retired. -/
theorem CoreMulticycle.performs_of_retired (hs : Isa.Served (CoreMulticycle.shown pc regs inp) mem₀ inp)
    (hone : Isa.OneFetch (CoreMulticycle.shown pc regs inp) inp) (hp : Isa.Plain (CoreMulticycle.shown pc regs inp) T)
    (hu : u < T) {r : Isa.Retirement} (hr : (CoreMulticycle.shown pc regs inp u).retired = some r) :
    ∃ k, Performs mem₀ ⟨pc, regs, none, []⟩ (CoreMulticycle.shown pc regs inp) k u ∧ ∀ j, j ≤ k →
      (Arch.run mem₀ ⟨pc, regs, none, []⟩ j).sound ((Arch.run mem₀ ⟨pc, regs, none, []⟩ j).insn mem₀) ∧
        ∃ v, v < T ∧ Performs mem₀ ⟨pc, regs, none, []⟩ (CoreMulticycle.shown pc regs inp) j v := by
  obtain ⟨m, -, hret, hall⟩ := CoreMulticycle.performs_run hs hone hp (t := u + 1) (by omega)
  have hmore : retirements (CoreMulticycle.shown pc regs inp) (u + 1) =
      retirements (CoreMulticycle.shown pc regs inp) u ++ [r] := by simp [retirements, hr]
  have hlen : m = (retirements (CoreMulticycle.shown pc regs inp) u).length + 1 := by
    have h := congrArg List.length (hret.symm.trans hmore)
    simpa [Isa.trace_length] using h
  obtain ⟨k, rfl⟩ : ∃ k, m = k + 1 := ⟨_, hlen⟩
  obtain ⟨-, v, hv, hpv⟩ := hall k (by omega)
  -- of the cycles up to `u` only `u` has as many retirements before it
  have huv : v = u := by
    rcases Nat.lt_or_ge v u with hlt | hge
    · have hle := Isa.retirements_length_le (c := CoreMulticycle.shown pc regs inp) (show v + 1 ≤ u from hlt)
      have hmore' : retirements (CoreMulticycle.shown pc regs inp) (v + 1) = _ ++ _ := rfl
      rw [hmore', List.length_append, hpv.before, hpv.retired, Isa.trace_length] at hle
      simp only [Option.toList_some, List.length_singleton] at hle
      omega
    · omega
  subst huv
  refine ⟨k, hpv, fun j hj => ?_⟩
  obtain ⟨hsound, w, hw, hpw⟩ := hall j (by omega)
  exact ⟨hsound, w, by omega, hpw⟩

/-- Whatever the multicycle core retires in a plain prefix that keeps its code, the pipeline retires too. -/
theorem repeats_multicycle (mem₀ : Word → Word) (pc : Word) (regs : RegFile)
    (inp inp' : Nat → CorePipeline.In) (T : Nat)
    (hs : Isa.Served (CoreMulticycle.shown pc regs inp) mem₀ inp)
    (hone : Isa.OneFetch (CoreMulticycle.shown pc regs inp) inp)
    (hp : Isa.Plain (CoreMulticycle.shown pc regs inp) T) (hkept : Isa.CodeKept (CoreMulticycle.shown pc regs inp) T)
    (hs' : Isa.Served (CorePipeline.shown pc regs inp') mem₀ inp')
    (hw' : Isa.Willing (CorePipeline.shown pc regs inp') inp') :
    Repeats (CoreMulticycle.shown pc regs inp) (CorePipeline.shown pc regs inp') T := by
  intro u hu r hr
  obtain ⟨k, hk, hall⟩ := CoreMulticycle.performs_of_retired hs hone hp hu hr
  have hsteady : CorePipeline.Steady mem₀ ⟨pc, regs, none, []⟩ (k + 1) := fun j hj =>
    ⟨(hall j (by omega)).1, hkept.unwritten (fun i hi => (hall i (by omega)).2) rfl⟩
  obtain ⟨t, ht⟩ := CorePipeline.commits_all hs' hw' hsteady (Nat.lt_succ_self k)
  have hpt := ht.track.follows.performs rfl ht.wb
  refine ⟨t, ?_, hpt.before.trans hk.before.symm, hpt.accesses.trans hk.accesses.symm⟩
  rw [hpt.retired, ← hk.retired, hr]

/-! ## Both cores on a memory -/

section
variable (mem₀ : Word → Word) (lag : Nat) (pc : Word) (regs : RegFile)

def multicycleBench : Isa.Bench CoreMulticycle.State :=
  ⟨mem₀, lag, CoreMulticycle.reset pc regs, CoreMulticycle.step, CoreMulticycle.shows⟩

def pipelineBench : Isa.Bench CorePipeline.State :=
  ⟨mem₀, lag, CorePipeline.reset pc regs, CorePipeline.step, CorePipeline.shows⟩

theorem multicycleBench_shown : CoreMulticycle.shown pc regs (multicycleBench mem₀ lag pc regs).inp =
    (multicycleBench mem₀ lag pc regs).shown := by
  funext t
  exact congrArg (CoreMulticycle.shows · _) ((multicycleBench mem₀ lag pc regs).run_eq t)

theorem pipelineBench_shown : CorePipeline.shown pc regs (pipelineBench mem₀ lag pc regs).inp =
    (pipelineBench mem₀ lag pc regs).shown := by
  funext t
  exact congrArg (CorePipeline.shows · _) ((pipelineBench mem₀ lag pc regs).run_eq t)

end

/-- `addi x1, x0, 5`, and `sw x1, 0(x0)` everywhere behind it. -/
def storesFive (a : Word) : Word := if a = RESET_PC then 0x00500093#32 else 0x00102023#32

/-- Three instructions of the multicycle core, the last in cycle 10. -/
theorem repeats_storesFive : Repeats (multicycleBench storesFive 0 RESET_PC fun _ => 0).shown
    (pipelineBench storesFive 0 RESET_PC fun _ => 0).shown 11 := by
  have h := repeats_multicycle storesFive RESET_PC (fun _ => 0) (multicycleBench storesFive 0 RESET_PC fun _ => 0).inp
    (pipelineBench storesFive 0 RESET_PC fun _ => 0).inp 11
  rw [multicycleBench_shown, pipelineBench_shown] at h
  refine h (Isa.Bench.served _) (Isa.Bench.oneFetch _ rfl) ?_ ?_ (Isa.Bench.served _) (Isa.Bench.willing _)
  · intro t ht r hr
    have hall : ∀ t, t < 11 → ((multicycleBench storesFive 0 RESET_PC fun _ => 0).shown t).retired.all
        (fun r => !r.trap && Isa.ordinary r.insn) = true := by decide +kernel
    have hr' := hall t ht
    rw [hr] at hr'
    simpa using hr'
  · intro u w v a z d m r huw hwv hv hacc _ hr
    have hall : ∀ t, t < 11 → ((multicycleBench storesFive 0 RESET_PC fun _ => 0).shown t).access.all
        (fun x => x.addr == 0#32) = true ∧ ((multicycleBench storesFive 0 RESET_PC fun _ => 0).shown t).retired.all
          (fun r => alignWord r.pc != 0#32) = true := by decide +kernel
    have ha := (hall u (by omega)).1
    have hp := (hall v hv).2
    rw [hacc] at ha
    rw [hr] at hp
    have ha' : a = 0#32 := by simpa [Isa.Access.addr] using ha
    rw [ha']
    simpa using hp

/-- `addi x1, x0, 1`, and `addi x2, x0, 2` everywhere behind it. -/
def twoAddis (a : Word) : Word := if a = RESET_PC then 0x00100093#32 else 0x00200113#32

/-- On a fetch bus that takes a request in every cycle and answers each in the third cycle after it, the multicycle
core performs the word at the reset pc twice. -/
theorem not_repeats : ¬ ∀ mem₀ pc regs inp inp' T, Isa.Served (CoreMulticycle.shown pc regs inp) mem₀ inp →
    Isa.Willing (CoreMulticycle.shown pc regs inp) inp → Isa.Plain (CoreMulticycle.shown pc regs inp) T →
    Isa.CodeKept (CoreMulticycle.shown pc regs inp) T → Isa.Served (CorePipeline.shown pc regs inp') mem₀ inp' →
    Isa.Willing (CorePipeline.shown pc regs inp') inp' →
    Repeats (CoreMulticycle.shown pc regs inp) (CorePipeline.shown pc regs inp') T := by
  intro h
  have hrep := h twoAddis RESET_PC (fun _ => 0) (multicycleBench twoAddis 2 RESET_PC fun _ => 0).inp
    (pipelineBench twoAddis 0 RESET_PC fun _ => 0).inp 8
  rw [multicycleBench_shown, pipelineBench_shown] at hrep
  have hplain : ∀ t, t < 8 → ((multicycleBench twoAddis 2 RESET_PC fun _ => 0).shown t).retired.all
      (fun r => !r.trap && Isa.ordinary r.insn) = true ∧
        ((multicycleBench twoAddis 2 RESET_PC fun _ => 0).shown t).access = none := by decide +kernel
  obtain ⟨t, ht, hbefore, -⟩ := hrep (Isa.Bench.served _) (Isa.Bench.willing _)
    (fun t ht r hr => by
      have hr' := (hplain t ht).1
      rw [hr] at hr'
      simpa using hr')
    (fun u w v a z d m r huw hwv hv hacc => by
      rw [(hplain u (by omega)).2] at hacc
      simp at hacc)
    (Isa.Bench.served _) (Isa.Bench.willing _) 7 (by omega)
    ⟨RESET_PC + 4, 0x00100093#32, true, 1, 1, false⟩ (by decide +kernel)
  have hlen : (retirements (multicycleBench twoAddis 2 RESET_PC fun _ => 0).shown 7).length = 1 := by decide +kernel
  have hmore : (retirements (pipelineBench twoAddis 0 RESET_PC fun _ => 0).shown 8).length = 2 := by decide +kernel
  rcases Nat.lt_or_ge t 8 with hlt | hge
  · have hnone : ∀ t, t < 8 → ((pipelineBench twoAddis 0 RESET_PC fun _ => 0).shown t).retired ≠
        some ⟨RESET_PC + 4, 0x00100093#32, true, 1, 1, false⟩ := by decide +kernel
    exact hnone t hlt ht
  · have hle := Isa.retirements_length_le (c := (pipelineBench twoAddis 0 RESET_PC fun _ => 0).shown) hge
    rw [hbefore, hlen, hmore] at hle
    omega

end QinglongCore
