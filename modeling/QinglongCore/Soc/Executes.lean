import QinglongCore.Pipeline.Lemmas.Requests
import QinglongCore.Soc.Lemmas.Startup

/-!
# The chip executes RV32IMA

A program in the SRAM runs on the chip as on a hart of RV32IMA: each instruction commits with the registers of the
hart, the SRAM holds the memory of the hart, and the console port has sent the bytes that the program wrote to it.
-/

namespace QinglongCore.SocTop

open CorePipeline (OnTrack Steady behind)
open Isa (Arch Queue QueuedBench Shown Surroundings byteMemory contents retirements)

section
variable (pc : Word) (u : Unreset) (inp : Nat → In) (t : Nat)

/-- What the core of the chip shows. -/
def shown : Shown := CorePipeline.shows (run pc u inp t).soc.core (coreIn (run pc u inp t) (inp t))

/-- The core on a memory with the contents of the SRAM. -/
def sramBench : QueuedBench CorePipeline.State :=
  ⟨image u.mem, CorePipeline.reset pc u.regs, CorePipeline.step, CorePipeline.shows⟩

/-- What the rest of the chip does in a cycle. -/
def around : Surroundings := surroundings (run pc u inp t) (inp t)

/-- In cycle `t` the chip commits the instruction after `k` others: the registers are the ones before it, the SRAM and
the console the ones behind it, and the core goes on at the next pc of the program. -/
structure Executes (k : Nat) : Prop where
  count : (retirements (shown pc u inp) t).length = k
  step : ∃ s s' r, (program pc u).run k = some s ∧ (program pc u).run (k + 1) = some s' ∧
    (shown pc u inp t).retired = some r ∧ r.Takes s s' ∧
    Isa.registers (run pc u inp t).soc.core.regs = s.regs ∧
    ∀ a, Fabric.isSram a = true →
      Isa.byteAt ((run pc u inp t).fabric.sram.mem (Fabric.bWordAddr a)) (Isa.lane a) = s'.mem a
  next : ((program pc u).run (k + 1)).map Rv32.State.pc = some (CorePipeline.behindPc (run pc u inp t).soc.core)
  console : printed (run pc u inp) (t + 1) = ((program pc u).written (k + 1)).filterMap consoleByte
  exit : exitCode (run pc u inp t) = (((program pc u).written (k + 1)).filterMap exitWord).getLast?

end

variable {pc : Word} {u : Unreset} {inp : Nat → In} {text : Word → Prop} {n k T t : Nat}

/-! ## The core beside the chip -/

theorem sramBench_run (pc : Word) (u : Unreset) (inp : Nat → In) (t : Nat) :
    CorePipeline.run pc u.regs ((sramBench pc u).inp (around pc u inp)) t =
      ((sramBench pc u).run (around pc u inp) t).1 :=
  @QueuedBench.run_eq _ (sramBench pc u) (around pc u inp) t

theorem sramBench_shown : CorePipeline.shown pc u.regs ((sramBench pc u).inp (around pc u inp)) =
    (sramBench pc u).shown (around pc u inp) := by
  funext t
  exact congrArg (CorePipeline.shows · _) (sramBench_run pc u inp t)

/-- The core on the memory asks in this cycle for nothing that the chip does not have, and redirects nowhere. -/
structure Content (text : Word → Prop) (s : CorePipeline.State) (c : Shown) (e : Ext) : Prop where
  fetch : CorePipeline.ifetchReqValid s e = true → text (alignWord s.fetch.pc)
  fits : ∀ a, c.access = some a → Fits text a
  redirect : CorePipeline.wbRedirect s = false ∧ CorePipeline.csrEnWb s = false

/-- As long as the core is content, the chip runs it like the memory. -/
theorem mirrors_run (htext : ∀ a, text a → Fabric.isSram a = true) (hT : ∀ t, t < T →
    Content text ((sramBench pc u).run (around pc u inp) t).1 ((sramBench pc u).shown (around pc u inp) t)
      (ext (run pc u inp t))) (t : Nat) (ht : t ≤ T) :
    Mirrors (image u.mem) text (printed (run pc u inp) t) ((sramBench pc u).run (around pc u inp) t).1
      ((sramBench pc u).run (around pc u inp) t).2 (run pc u inp t) := by
  induction t with
  | zero => exact mirrors_reset pc u fun a ha => image_contents u.mem ha
  | succ t ih =>
      have hc := hT t ht
      have hsp : CorePipeline.Spaced ((sramBench pc u).run (around pc u inp) t).1 :=
        sramBench_run pc u inp t ▸ CorePipeline.spaced_run t
      exact (ih (by omega)).step (inp t) hc.fetch hc.fits htext hsp hc.redirect.1 hc.redirect.2

/-! ## What retires -/

theorem retirements_length_congr {c c' : Nat → Shown} (h : ∀ v, v < t → (c v).retired.isSome = (c' v).retired.isSome) :
    (retirements c t).length = (retirements c' t).length := by
  induction t with
  | zero => rfl
  | succ t ih =>
      have hlast := h t (Nat.lt_succ_self t)
      rw [retirements, retirements, List.length_append, List.length_append, ih fun v hv => h v (by omega)]
      cases hc : (c t).retired <;> cases hc' : (c' t).retired <;> simp [hc, hc'] at hlast ⊢

theorem retirements_length_le {c : Nat → Shown} : (retirements c t).length ≤ t := by
  induction t with
  | zero => exact Nat.le_refl 0
  | succ t ih =>
      rw [retirements, List.length_append]
      have hone : (c t).retired.toList.length ≤ 1 := by cases (c t).retired <;> simp
      omega

/-- Data that goes to no register does not matter to the hart. -/
theorem takes_alike {r r' : Isa.Retirement} {s s' : Rv32.State} (h : r.Takes s s')
    (hr : CorePipeline.AlikeRetired r r') : r'.Takes s s' := by
  obtain ⟨⟨x, rfl⟩, hd⟩ := hr
  refine ⟨h.pc, h.insn, ?_, h.trap⟩
  rw [h.regs]
  show _ = if r.rdWen then s.regs.set r.rd x else s.regs
  cases hw : r.rdWen
  · rfl
  · rw [show x = r.rdData from hd hw]

/-! ## Instructions -/

theorem served (pc : Word) (u : Unreset) (inp : Nat → In) :
    Isa.Served (CorePipeline.shown pc u.regs ((sramBench pc u).inp (around pc u inp))) (image u.mem)
      ((sramBench pc u).inp (around pc u inp)) := by
  rw [sramBench_shown]
  exact QueuedBench.served

theorem willing (hready : ∀ t, ∃ v, t ≤ v ∧ (inp v).consoleReady = true) :
    Isa.Willing (CorePipeline.shown pc u.regs ((sramBench pc u).inp (around pc u inp)))
      ((sramBench pc u).inp (around pc u inp)) := by
  rw [sramBench_shown]
  refine QueuedBench.willing fun t => ?_
  obtain ⟨v, hv, hr⟩ := hready t
  refine ⟨v, hv, fun x => ?_⟩
  cases x with
  | read a z => rfl
  | write a z d m =>
      show (a != Mmio.ADDR_CONSOLE || (inp v).consoleReady) = true
      rw [hr, Bool.or_true]

section
variable (h : Hosted text (program pc u) n) (hal : Isa.Aligned pc)
include h hal

/-- A core on track with the program is content. -/
theorem content {K j : Nat} (hK : K ≤ n)
    (ht : OnTrack (image u.mem) pc u.regs ((sramBench pc u).inp (around pc u inp)) K j t) (hj : j < K)
    (hb : behind j (CorePipeline.run pc u.regs ((sramBench pc u).inp (around pc u inp)) t) < K) :
    Content text ((sramBench pc u).run (around pc u inp) t).1 ((sramBench pc u).shown (around pc u inp) t)
      (ext (run pc u inp t)) := by
  have hsteady : Steady (image u.mem) ⟨pc, u.regs, none, []⟩ n := h.steady rfl hal
  rw [← sramBench_run, ← sramBench_shown]
  refine ⟨fun hv => ?_, fun a ha => ?_, ?_⟩
  · obtain ⟨m, hm, hpc⟩ := ht.fetch_ahead hb hv
    have hmn : m ≤ n := by omega
    obtain ⟨h₀, h₄, h₈⟩ := h.ahead m _ hmn (h.run_eq hmn)
    have hd : Isa.Aligned (Arch.run (image u.mem) ⟨pc, u.regs, none, []⟩ m).pc := h.aligned hal hmn
    rcases hpc with hpc | hpc | hpc <;> rw [hpc]
    · rwa [Isa.alignWord_of_aligned hd]
    · rwa [Isa.alignWord_of_aligned (hd.add (by decide))]
    · rwa [Isa.alignWord_of_aligned (hd.add (by decide))]
  · exact h.makes_fits (by omega) a (ht.access_made hb ha)
  · exact ht.follows.calm (fun i hi => hsteady i (by omega)) hj

/-- The first cycle in which the next instruction commits, and the chip beside the memory up to it. -/
theorem commits_mirrored (hready : ∀ t, ∃ v, t ≤ v ∧ (inp v).consoleReady = true) (hk : k < n) : ∃ T,
    CorePipeline.Commits (image u.mem) pc u.regs ((sramBench pc u).inp (around pc u inp)) (k + 1) k T ∧
      ∀ t, t ≤ T → Mirrors (image u.mem) text (printed (run pc u inp) t)
        ((sramBench pc u).run (around pc u inp) t).1 ((sramBench pc u).run (around pc u inp) t).2 (run pc u inp t) ∧
        (t < T → Content text ((sramBench pc u).run (around pc u inp) t).1
          ((sramBench pc u).shown (around pc u inp) t) (ext (run pc u inp t))) := by
  classical
  have hsteady : Steady (image u.mem) ⟨pc, u.regs, none, []⟩ (k + 1) := fun j hj => h.steady rfl hal j (by omega)
  have hex := CorePipeline.commits_all (served pc u inp) (willing hready) hsteady (Nat.lt_succ_self k)
  refine ⟨Nat.find hex, Nat.find_spec hex, ?_⟩
  have hfirst : ∀ t, t < Nat.find hex → ∀ j, j + 1 = k + 1 →
      OnTrack (image u.mem) pc u.regs ((sramBench pc u).inp (around pc u inp)) (k + 1) j t →
        (CorePipeline.run pc u.regs ((sramBench pc u).inp (around pc u inp)) t).wb.valid = false := by
    intro t ht j hj htr
    obtain rfl : j = k := by omega
    by_contra hv
    exact Nat.find_min hex ht ⟨htr, by simpa using hv⟩
  have hcontent : ∀ t, t < Nat.find hex → Content text ((sramBench pc u).run (around pc u inp) t).1
      ((sramBench pc u).shown (around pc u inp) t) (ext (run pc u inp t)) := by
    intro t ht
    obtain ⟨j, hj, htr, hb⟩ := CorePipeline.onTrack_until (served pc u inp) hsteady hfirst (Nat.succ_pos k) t (by omega)
    exact content h hal (show k + 1 ≤ n from hk) htr hj (hb ht)
  exact fun t ht => ⟨mirrors_run h.sram hcontent t ht, hcontent t⟩

/-- An instruction of the program commits on the chip. -/
theorem executes_program (hready : ∀ t, ∃ v, t ≤ v ∧ (inp v).consoleReady = true) (hk : k < n) :
    ∃ t, Executes pc u inp t k := by
  obtain ⟨T, hT, hall⟩ := commits_mirrored h hal hready hk
  have hm := (hall T (Nat.le_refl T)).1
  have hex := (hT.track.follows.performs rfl hT.wb).executes (Rv32.State.run_isSome h.runs hk)
  have hacc := (hT.track.follows.wb hT.wb).2
  have hregs := hT.track.follows.regs
  have hwb := hT.wb
  have hlog := @QueuedBench.log_eq _ (sramBench pc u) (around pc u inp) T
  rw [sramBench_run] at hregs hwb
  rw [sramBench_shown] at hacc hex
  have hset := hm.quiescent (sramBench_run pc u inp T ▸ CorePipeline.spaced_run T) hwb
  rw [hlog, hacc] at hset
  obtain ⟨hcons, hexit⟩ := h.outputs rfl (show k + 1 ≤ n from hk)
  obtain ⟨s, s', r, hs, hs', hr, htakes, hmem⟩ := hex.step
  obtain ⟨r', hr', halike⟩ := @CorePipeline.retired_alike _ _ _ (coreIn (run pc u inp T) (inp T)) hm.alike rfl _ hr
  have hnext := hT.track.follows.behindPc hT.track.straight
  rw [behind, hT.wb, sramBench_run, if_pos rfl] at hnext
  refine ⟨T, ?_, ⟨s, s', r', hs, hs', hr', takes_alike htakes halike, ?_, fun a ha => ?_⟩, ?_, ?_, ?_⟩
  · rw [← hex.count]
    exact retirements_length_congr fun v hv => CorePipeline.retired_isSome_alike (hall v (by omega)).1.alike
  · obtain ⟨⟨y, z, he⟩, -, -⟩ := hm.alike
    rw [he]
    show Isa.registers ((sramBench pc u).run (around pc u inp) T).1.regs = _
    rw [hregs, Isa.run_hart hs]
    rfl
  · rw [hset.mem a ha, Isa.run_hart hs']
    rfl
  · obtain ⟨⟨y, z, he⟩, -, -⟩ := hm.alike
    have hpc : s'.pc = CorePipeline.behindPc (run pc u inp T).soc.core := by
      rw [Isa.run_hart hs', he]
      exact hnext.symm
    rw [← hpc]
    exact congrArg (Option.map Rv32.State.pc) hs'
  · exact hset.printed.trans hcons
  · exact hset.exit.trans (congrArg List.getLast? hexit)

omit h hal in
theorem printed_mono {v : Nat} (htv : t ≤ v) : printed (run pc u inp) t <+: printed (run pc u inp) v := by
  induction v, htv using Nat.le_induction with
  | base => exact List.prefix_rfl
  | succ v _ ih => exact ih.trans (List.prefix_append _ _)

/-- At any time the console has sent a first part of what the program has written by then. -/
theorem printed_prefix (hready : ∀ t, ∃ v, t ≤ v ∧ (inp v).consoleReady = true) (hk : k < n) :
    printed (run pc u inp) k <+: ((program pc u).written (k + 1)).filterMap consoleByte := by
  obtain ⟨T, hT, hall⟩ := commits_mirrored h hal hready hk
  have hacc := (hT.track.follows.wb hT.wb).2
  have hex := (hT.track.follows.performs rfl hT.wb).executes (Rv32.State.run_isSome h.runs hk)
  -- an instruction commits in each cycle at most
  have hkT : k ≤ T := by
    rw [← hex.count]
    exact retirements_length_le
  obtain ⟨done, hlog, hset⟩ := (hall k hkT).1.settled
  have hpre : done <+: ((sramBench pc u).run (around pc u inp) k).2.log := hlog ▸ List.prefix_append _ _
  have hlog := @QueuedBench.log_eq _ (sramBench pc u) (around pc u inp) k
  rw [sramBench_shown] at hacc
  have hall' := hpre.trans (hlog ▸ Isa.accesses_prefix hkT)
  rw [hacc] at hall'
  have hout := hall'.filterMap consoleOf
  rw [(h.outputs rfl (show k + 1 ≤ n from hk)).1, ← hset.printed] at hout
  exact (List.prefix_append _ _).trans hout

end

/-- The chip runs every program that keeps to its SRAM and its console: each instruction commits in order, with the
registers, the memory and the output that RV32IMA defines. -/
theorem chip_executes (pc : Word) (u : Unreset) (inp : Nat → In) (text : Word → Prop) (n : Nat)
    (hal : Isa.Aligned pc) (hready : ∀ t, ∃ v, t ≤ v ∧ (inp v).consoleReady = true)
    (h : Hosted text (program pc u) n) : ∀ k, k < n → ∃ t, Executes pc u inp t k :=
  fun _ hk => executes_program h hal hready hk

/-- A byte for the console, and a jump to itself. -/
def greets : List Rv32.Instr :=
  [.lui 1#5 0xD0580#20, .imm .addi 2#5 0#5 72#12, .store .sb 1#5 2#5 0#12, .jal 0#5 0#20]

/-- The SRAM comes up with the greeting. -/
def greeting : Unreset where
  regs _ := 0#32
  payload := ⟨0, false, 0, 0, 0⟩
  mem := words greets
  aRdata := 0#32
  bRdata := 0#32

/-- Outside of the chip the console takes every byte, and the AXI slave is idle. -/
def takingAll (_ : Nat) : In := ⟨true, ⟨false, false, false, 0, false, false, 0, 0⟩, false⟩

theorem hosted_greeting (n : Nat) : Hosted (textOf 4) (program RESET_PC greeting) n := by
  have hp : Rv32.Placed (onChip (textOf 4)) RESET_PC greets :=
    placed_textOf (by decide) (by decide)
  have h₀ : Rv32.At RESET_PC greets 0 (program RESET_PC greeting) :=
    ⟨rfl, code_of_loaded (loaded_words rfl (by decide)) (by decide)⟩
  obtain ⟨g₁, h₁⟩ := hp.compute h₀ rfl (by rw [Rv32.State.exec]) rfl rfl
  obtain ⟨x, g₂, h₂, hr⟩ := hp.addi h₁ rfl rfl
  obtain ⟨y, g₃, h₃, -⟩ := hp.store h₂ rfl rfl (Nat.one_dvd _) (.inr (.inl (by rw [hr]; rfl)))
  exact hosted_spin hp ((g₁.trans g₂).trans g₃) h₃ rfl (fun a => textOf_sram (by decide)) n

/-- The byte goes out. -/
theorem chip_greeting : ∃ t, Executes RESET_PC greeting takingAll t 2 :=
  chip_executes RESET_PC greeting takingAll (textOf 4) 4 (by decide) (fun t => ⟨t, Nat.le_refl t, rfl⟩)
    (hosted_greeting 4) 2 (by decide)

/-! ## The console -/

/-- The console port sends what a program writes to it: nothing else at any time, and all of it in the end. -/
theorem chip_console (pc : Word) (u : Unreset) (inp : Nat → In) (text : Word → Prop) (hal : Isa.Aligned pc)
    (hready : ∀ t, ∃ v, t ≤ v ∧ (inp v).consoleReady = true) (h : ∀ n, Hosted text (program pc u) n) :
    (∀ t, ∃ k, printed (run pc u inp) t <+: ((program pc u).written k).filterMap consoleByte) ∧
      ∀ k, ∃ t, ((program pc u).written k).filterMap consoleByte <+: printed (run pc u inp) t := by
  constructor
  · intro t
    exact ⟨t + 1, printed_prefix (h (t + 1)) hal hready (Nat.lt_succ_self t)⟩
  · intro k
    obtain ⟨t, ht⟩ := chip_executes pc u inp text (k + 1) hal hready (h (k + 1)) k (Nat.lt_succ_self k)
    refine ⟨t + 1, ?_⟩
    rw [ht.console]
    exact (Rv32.State.written_prefix (Nat.le_succ k)).filterMap _

/-- The greeting is all that the console ever sends. -/
theorem console_greeting : (∀ t, ∃ k, printed (run RESET_PC greeting takingAll) t <+:
      ((program RESET_PC greeting).written k).filterMap consoleByte) ∧
    ∀ k, ∃ t, ((program RESET_PC greeting).written k).filterMap consoleByte <+:
      printed (run RESET_PC greeting takingAll) t :=
  chip_console RESET_PC greeting takingAll (textOf 4) (by decide) (fun t => ⟨t, Nat.le_refl t, rfl⟩) hosted_greeting

end QinglongCore.SocTop
