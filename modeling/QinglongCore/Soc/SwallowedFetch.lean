import QinglongCore.Soc.Lemmas.FetchSide

/-!
# Fetch responses across a change of translation

The MMU selects the branch of the fetch side by the translation in force and by the address now on the
port. A response that arrives in the waiting branch is dropped, and the core waits for it for ever.
-/

namespace QinglongCore.Soc

section

variable (pc : Word) (regs : RegFile) (payload : Mmu.Req) (inp : Nat → In)

/-- A response that the bus returns for the fetch in flight reaches the core in that cycle. -/
def Delivered (t : Nat) : Prop :=
  (run pc regs payload inp t).core.fetch.inflight = true → (inp t).ifRspValid = true →
    (ifOut (run pc regs payload inp t) (inp t)).rspValid = true ∧
      (run pc regs payload inp (t + 1)).core.fetch.inflight = false

end

variable {pc : Word} {regs : RegFile} {payload : Mmu.Req} {inp : Nat → In} {t : Nat}

/-- A response is delivered exactly if the fetch is not exposed, or something answers for the address now
on the port. -/
theorem delivered_iff : Delivered pc regs payload inp t ↔
    ((run pc regs payload inp t).core.fetch.inflight = true → (inp t).ifRspValid = true →
      exposed pc regs payload inp t = true → Answerable (run pc regs payload inp t)) := by
  constructor
  · intro h hin hr _
    exact (rspValid_iff hin hr).mp (h hin hr).1
  · intro h hin hr
    have hans := answerable_run hin (h hin hr)
    have hrsp := (rspValid_iff hin hr).mpr hans
    refine ⟨hrsp, ?_⟩
    cases hn : (run pc regs payload inp (t + 1)).core.fetch.inflight
    · rfl
    rcases CorePipeline.fetchNext_inflight hn with ⟨ha, -, -⟩ | ⟨-, -, hna, -, -⟩
    · rw [(accept_elim ha).1] at hin; simp at hin
    · simp [CorePipeline.rspArriving, hin, coreIn, hrsp] at hna

/-- `csrw satp, x1` and `mret` into user mode with the fetch behind `mret` still unanswered: its response
in cycle 14 is dropped. -/
theorem not_delivered : ¬ ∀ pc regs payload inp t, Delivered pc regs payload inp t := by
  intro h
  have hd := h RESET_PC (fun _ => 0x80000000#32) ⟨0, false, 0, 0, 0⟩ (fun t => .answer
    (if t = 1 then some 0x18009073#32 else if t = 3 ∨ t = 7 then some 0x30200073#32
      else if t = 14 then some 0x00000013#32 else none) none none) 14 (by decide +kernel) (by decide +kernel)
  exact absurd hd.1 (by decide +kernel)

end QinglongCore.Soc
